import Winsmux.CharText

/-!
# The terminal input parser

A state machine over characters: keys, CSI and SS3 sequences, mouse reports, bracketed paste
and OSC strings. Its parameter registers are shared by all sequences. A text is the list of
its characters.
-/
namespace Winsmux.Input
open CharText (Chars)

structure KeyModifiers where
  shift : Bool
  alt : Bool
  control : Bool
  deriving DecidableEq

namespace KeyModifiers

def empty : KeyModifiers := ⟨false, false, false⟩

def onlyShift : KeyModifiers := ⟨true, false, false⟩

def onlyAlt : KeyModifiers := ⟨false, true, false⟩

def onlyControl : KeyModifiers := ⟨false, false, true⟩

end KeyModifiers

inductive KeyCode where
  | char (c : Char)
  | enter
  | tab
  | backTab
  | backspace
  | esc
  | up
  | down
  | right
  | left
  | home
  | «end»
  | insert
  | delete
  | pageUp
  | pageDown
  | f (n : ℕ)
  deriving DecidableEq

inductive MouseButton where
  | left
  | middle
  | right
  deriving DecidableEq

inductive MouseEventKind where
  | down (button : MouseButton)
  | up (button : MouseButton)
  | drag (button : MouseButton)
  | moved
  | scrollUp
  | scrollDown
  deriving DecidableEq

inductive Event where
  | key (code : KeyCode) (modifiers : KeyModifiers)
  | mouse (kind : MouseEventKind) (column row : ℕ) (modifiers : KeyModifiers)
  | paste (text : Chars)
  | focusGained
  | focusLost
  deriving DecidableEq

/-- The largest value of a `u16`, where its arithmetic saturates. -/
abbrev u16Max : ℕ := 65535

def decodeModifiers (n : ℕ) : KeyModifiers :=
  let m := n - 1
  ⟨m &&& 1 ≠ 0, m &&& 2 ≠ 0, m &&& 4 ≠ 0⟩

/-- `decode_utf16_unit`: the character a unit completes, and the surrogate that waits. -/
def decodeUtf16Unit (unit : ℕ) (highSurrogate : Option ℕ) : Option Char × Option ℕ :=
  if 0xd800 ≤ unit ∧ unit ≤ 0xdbff then (none, some unit)
  else if 0xdc00 ≤ unit ∧ unit ≤ 0xdfff then
    match highSurrogate with
    | some hi => (charFromU32 (0x10000 + (hi - 0xd800) <<< 10 + (unit - 0xdc00)), none)
    | none => (none, none)
  else (charFromU32 unit, none)
where
  charFromU32 (n : ℕ) : Option Char := if n.isValidChar then some (Char.ofNat n) else none

def base64Chars : Chars := "ABCDEFGHIJKLMNOPQRSTUVWXYZabcdefghijklmnopqrstuvwxyz0123456789+/".toList

def base64Position (b : UInt8) : Option UInt8 :=
  (base64Chars.findIdx? fun c => c.toNat.toUInt8 = b).map Nat.toUInt8

/-- The bytes of the groups of four; a group of one is dropped. -/
def base64Bytes : List UInt8 → Option (List UInt8)
  | c0 :: c1 :: rest => do
    let b0 ← base64Position c0
    let b1 ← base64Position c1
    let first := (b0 <<< 2) ||| (b1 >>> 4)
    match rest with
    | [] => some [first]
    | [c2] => do
      let b2 ← base64Position c2
      some [first, (b1 <<< 4) ||| (b2 >>> 2)]
    | c2 :: c3 :: rest => do
      let b2 ← base64Position c2
      let b3 ← base64Position c3
      let more ← base64Bytes rest
      some (first :: ((b1 <<< 4) ||| (b2 >>> 2)) :: ((b2 <<< 6) ||| b3) :: more)
  | _ => some []

/-- `util::base64_decode` -/
def base64Decode (encoded : Chars) : Option Chars := do
  let result ← base64Bytes ((String.ofList encoded).toUTF8.data.toList.filter (· ≠ 0x3d))
  (String.fromUTF8? ⟨result.toArray⟩).map String.toList

inductive PS where
  | ground
  | escape
  | csiEntry
  | csiParam
  | x10Mouse
  | ss3
  | paste
  | pasteEsc
  | pasteBrk
  | pasteNum
  | osc
  | oscEsc
  deriving DecidableEq

structure VtParser where
  state : PS
  params : Vector ℕ 8
  /-- How many parameters are complete. -/
  pidx : ℕ
  cur : ℕ
  hasDigit : Bool
  privCh : Option Char
  x10N : ℕ
  x10Buf : Vector UInt8 3
  paste : Chars
  osc : Chars
  hiSur : Option ℕ

namespace VtParser

def new : VtParser :=
  ⟨.ground, Vector.replicate 8 0, 0, 0, false, none, 0, Vector.replicate 3 0, [], [], none⟩

def resetCsi (p : VtParser) : VtParser :=
  { p with params := Vector.replicate 8 0, pidx := 0, cur := 0, hasDigit := false, privCh := none }

/-- Steps answer with the parser and what it emits. -/
abbrev Emits := VtParser × List Event

def onGround (p : VtParser) (ch : Char) : Emits :=
  if ch = '\x1b' then ({ p with state := .escape }, [])
  else if ch = '\r' ∨ ch = '\n' then (p, [.key .enter .empty])
  else if ch = '\t' then (p, [.key .tab .empty])
  else if ch = '\x7f' then (p, [.key .backspace .empty])
  else if ch = '\x08' then (p, [.key .backspace .empty])
  else if ch = '\x00' then (p, [.key (.char ' ') .onlyControl])
  else if 1 ≤ ch.toNat ∧ ch.toNat ≤ 26 then
    (p, [.key (.char (Char.ofNat (97 + ch.toNat - 1))) .onlyControl])
  else if ch.toNat = 28 then (p, [.key (.char '\\') .onlyControl])
  else if ch.toNat = 29 then (p, [.key (.char ']') .onlyControl])
  else if ch.toNat = 30 then (p, [.key (.char '^') .onlyControl])
  else if ch.toNat = 31 then (p, [.key (.char '_') .onlyControl])
  else (p, [.key (.char ch) .empty])

def onEscape (p : VtParser) (ch : Char) : Emits :=
  if ch = '[' then ({ p.resetCsi with state := .csiEntry }, [])
  else if ch = 'O' then ({ p with state := .ss3 }, [])
  else if ch = '\x1b' then (p, [.key .esc .empty])
  else if ch = ']' then ({ p with osc := [], state := .osc }, [])
  else if ' ' ≤ ch ∧ ch ≤ '~' then ({ p with state := .ground }, [.key (.char ch) .onlyAlt])
  else
    let (q, events) := onGround { p with state := .ground } ch
    (q, .key .esc .empty :: events)

def finishParam (p : VtParser) : VtParser :=
  if p.pidx < 8 then
    { p with
      params := p.params.setIfInBounds p.pidx p.cur, pidx := p.pidx + 1, cur := 0,
      hasDigit := false }
  else { p with cur := 0, hasDigit := false }

def buttonOf (id : ℕ) : MouseButton :=
  match id with
  | 0 => .left
  | 1 => .middle
  | 2 => .right
  | _ => .left

def dispatchSgrMouse (p : VtParser) (finalCh : Char) : List Event :=
  if p.pidx < 3 then []
  else
    let pb := p.params[0]
    let btnId := pb &&& 0x03
    let kind :=
      if pb &&& 0x40 ≠ 0 then (if btnId = 0 then .scrollUp else .scrollDown)
      else if finalCh = 'm' then .up (buttonOf btnId)
      else if pb &&& 0x20 ≠ 0 then (if btnId = 3 then .moved else .drag (buttonOf btnId))
      else .down (buttonOf btnId)
    [.mouse kind (p.params[1] - 1) (p.params[2] - 1)
      ⟨pb &&& 0x04 ≠ 0, pb &&& 0x08 ≠ 0, pb &&& 0x10 ≠ 0⟩]

/-- The key of a CSI sequence that ends in `~`, by its first parameter. -/
def tildeKey (n : ℕ) : Option KeyCode :=
  match n with
  | 1 | 7 => some .home
  | 2 => some .insert
  | 3 => some .delete
  | 4 | 8 => some .end
  | 5 => some .pageUp
  | 6 => some .pageDown
  | 11 => some (.f 1)
  | 12 => some (.f 2)
  | 13 => some (.f 3)
  | 14 => some (.f 4)
  | 15 => some (.f 5)
  | 17 => some (.f 6)
  | 18 => some (.f 7)
  | 19 => some (.f 8)
  | 20 => some (.f 9)
  | 21 => some (.f 10)
  | 23 => some (.f 11)
  | 24 => some (.f 12)
  | _ => none

def dispatchTilde (p : VtParser) (mods : KeyModifiers) : List Event :=
  ((tildeKey p.params[0]).map fun code => Event.key code mods).toList

/-- The key a CSI or SS3 sequence ends in. -/
def finalKey (ch : Char) : Option KeyCode :=
  match ch with
  | 'A' => some .up
  | 'B' => some .down
  | 'C' => some .right
  | 'D' => some .left
  | 'H' => some .home
  | 'F' => some .end
  | 'P' => some (.f 1)
  | 'Q' => some (.f 2)
  | 'R' => some (.f 3)
  | 'S' => some (.f 4)
  | _ => none

def dispatchCsi (p : VtParser) (ch : Char) : Emits :=
  if p.privCh = some '<' then ({ p with state := .ground }, p.dispatchSgrMouse ch)
  else if p.privCh = some '?' then ({ p with state := .ground }, [])
  else if ch = '~' ∧ 1 ≤ p.pidx ∧ p.params[0] = 200 then
    ({ p with paste := [], state := .paste }, [])
  else
    let mods := if 2 ≤ p.pidx then decodeModifiers p.params[1] else .empty
    let events :=
      match finalKey ch with
      | some code => [.key code mods]
      | none =>
        if ch = 'Z' then [.key .backTab .onlyShift]
        else if ch = 'I' ∧ p.pidx ≤ 1 ∧ p.params[0] = 0 then [.focusGained]
        else if ch = 'O' ∧ p.pidx ≤ 1 ∧ p.params[0] = 0 then [.focusLost]
        else if ch = '~' then p.dispatchTilde mods
        else []
    ({ p with state := .ground }, events)

/-- The characters a CSI sequence can end in. -/
def isFinal (ch : Char) : Bool := ch.isUpper || ch.isLower || ch = '~'

def digitValue (ch : Char) : ℕ := ch.toNat - 48

def onCsiEntry (p : VtParser) (ch : Char) : Emits :=
  if ch = '<' then ({ p with privCh := some '<', state := .csiParam }, [])
  else if ch = '?' then ({ p with privCh := some '?', state := .csiParam }, [])
  else if ch.isDigit then
    ({ p with cur := digitValue ch, hasDigit := true, state := .csiParam }, [])
  else if ch = ';' then ({ p.finishParam with state := .csiParam }, [])
  else if ch = 'M' then ({ p with x10N := 0, state := .x10Mouse }, [])
  else if isFinal ch then p.finishParam.dispatchCsi ch
  else if ch = '\x1b' then ({ p with state := .escape }, [])
  else ({ p with state := .ground }, [])

/-- A further digit; both operations saturate. -/
def addDigit (cur : ℕ) (ch : Char) : ℕ := min u16Max (min u16Max (cur * 10) + digitValue ch)

def onCsiParam (p : VtParser) (ch : Char) : Emits :=
  if ch.isDigit then ({ p with cur := addDigit p.cur ch, hasDigit := true }, [])
  else if ch = ';' then (p.finishParam, [])
  else if ch = ':' then (p.finishParam, [])
  else if isFinal ch then p.finishParam.dispatchCsi ch
  else if ch = '\x1b' then ({ p with state := .escape }, [])
  else ({ p with state := .ground }, [])

def dispatchX10 (buf : Vector UInt8 3) : Event :=
  let rawBtn := buf[0] - 32
  let btnId := (rawBtn &&& 0x03).toNat
  let kind :=
    if rawBtn &&& 0x40 ≠ 0 then (if btnId = 0 then .scrollUp else .scrollDown)
    else if rawBtn &&& 0x20 ≠ 0 then (if btnId = 3 then .moved else .drag (buttonOf btnId))
    else if btnId = 3 then .up .left
    else .down (buttonOf btnId)
  .mouse kind (buf[1] - 33).toNat (buf[2] - 33).toNat
    ⟨rawBtn &&& 0x04 ≠ 0, rawBtn &&& 0x08 ≠ 0, rawBtn &&& 0x10 ≠ 0⟩

def onX10 (p : VtParser) (ch : Char) : Emits :=
  let q := { p with
    x10Buf := p.x10Buf.setIfInBounds p.x10N (min ch.toNat 255).toUInt8, x10N := p.x10N + 1 }
  if q.x10N < 3 then (q, []) else ({ q with state := .ground }, [dispatchX10 q.x10Buf])

def onSs3 (p : VtParser) (ch : Char) : Emits :=
  ({ p with state := .ground },
    [match finalKey ch with
    | some code => .key code .empty
    | none => .key (.char ch) .onlyAlt])

def onPaste (p : VtParser) (ch : Char) : Emits :=
  if ch = '\x1b' then ({ p with state := .pasteEsc }, [])
  else ({ p with paste := p.paste ++ [ch] }, [])

def onPasteEsc (p : VtParser) (ch : Char) : Emits :=
  if ch = '[' then ({ p with state := .pasteBrk }, [])
  else ({ p with paste := p.paste ++ ['\x1b', ch], state := .paste }, [])

def onPasteBrk (p : VtParser) (ch : Char) : Emits :=
  if ch.isDigit then ({ p with cur := digitValue ch, state := .pasteNum }, [])
  else ({ p with paste := p.paste ++ ['\x1b', '[', ch], state := .paste }, [])

def onPasteNum (p : VtParser) (ch : Char) : Emits :=
  if ch.isDigit then ({ p with cur := addDigit p.cur ch }, [])
  else if ch = '~' ∧ p.cur = 201 then ({ p with paste := [], state := .ground }, [.paste p.paste])
  else
    ({ p with
      paste := p.paste ++ '\x1b' :: '[' :: (Nat.toDigits 10 p.cur ++ [ch]), cur := 0,
      state := .paste }, [])

/-- The text of a clipboard response. -/
def dispatchOsc (p : VtParser) : List Event :=
  if "52;".toList.isPrefixOf p.osc then
    match (p.osc.drop 3).dropWhile (· ≠ ';') with
    | _ :: data =>
      if data ≠ ['?'] ∧ data ≠ [] then
        match base64Decode data with
        | some text => if text ≠ [] then [.paste text] else []
        | none => []
      else []
    | [] => []
  else []

def onOsc (p : VtParser) (ch : Char) : Emits :=
  if ch = '\x07' then ({ p with state := .ground }, p.dispatchOsc)
  else if ch = '\x1b' then ({ p with state := .oscEsc }, [])
  else if (p.osc.map Char.utf8Size).sum < 131072 then ({ p with osc := p.osc ++ [ch] }, [])
  else (p, [])

def onOscEsc (p : VtParser) (ch : Char) : Emits :=
  if ch = '\\' then ({ p with state := .ground }, p.dispatchOsc)
  else onEscape { p with osc := [], state := .escape } ch

def feed (p : VtParser) (ch : Char) : Emits :=
  match p.state with
  | .ground => p.onGround ch
  | .escape => p.onEscape ch
  | .csiEntry => p.onCsiEntry ch
  | .csiParam => p.onCsiParam ch
  | .x10Mouse => p.onX10 ch
  | .ss3 => p.onSs3 ch
  | .paste => p.onPaste ch
  | .pasteEsc => p.onPasteEsc ch
  | .pasteBrk => p.onPasteBrk ch
  | .pasteNum => p.onPasteNum ch
  | .osc => p.onOsc ch
  | .oscEsc => p.onOscEsc ch

/-- One character after another. -/
def feedAll : VtParser → Chars → Emits
  | p, [] => (p, [])
  | p, ch :: text => ((feedAll (p.feed ch).1 text).1, (p.feed ch).2 ++ (feedAll (p.feed ch).1 text).2)

/-- A UTF-16 code unit, as the console delivers it. -/
def feedUnit (p : VtParser) (unit : ℕ) : Emits :=
  let (ch, hiSur) := decodeUtf16Unit unit p.hiSur
  match ch with
  | some ch => { p with hiSur := hiSur }.feed ch
  | none => ({ p with hiSur := hiSur }, [])

def feedUnits : VtParser → List ℕ → Emits
  | p, [] => (p, [])
  | p, unit :: units =>
    ((feedUnits (p.feedUnit unit).1 units).1,
      (p.feedUnit unit).2 ++ (feedUnits (p.feedUnit unit).1 units).2)

@[simp] theorem feedAll_nil (p : VtParser) : p.feedAll [] = (p, []) := rfl

theorem feedAll_cons {p q r : VtParser} {ch : Char} {text : Chars} {events more : List Event}
    (h : p.feed ch = (q, events)) (ht : q.feedAll text = (r, more)) :
    p.feedAll (ch :: text) = (r, events ++ more) := by
  rw [feedAll, h, ht]

/-- A text takes the parser from one state to another, emitting events. -/
theorem feedAll_append {p q r : VtParser} {s t : Chars} {events more : List Event}
    (hs : p.feedAll s = (q, events)) (ht : q.feedAll t = (r, more)) :
    p.feedAll (s ++ t) = (r, events ++ more) := by
  induction s generalizing p events with
  | nil =>
    obtain ⟨rfl, rfl⟩ := Prod.mk.inj hs
    simpa using ht
  | cons ch s ih =>
    obtain ⟨rfl, rfl⟩ := Prod.mk.inj hs
    rw [List.cons_append, feedAll, ih rfl, List.append_assoc]

theorem feedAll_singleton (p : VtParser) (ch : Char) : p.feedAll [ch] = p.feed ch := by
  rw [feedAll, feedAll_nil, List.append_nil]

/-- A front that emits nothing only moves the parser. -/
theorem feedAll_silent {p q : VtParser} {s : Chars} (hs : p.feedAll s = (q, [])) (t : Chars) :
    p.feedAll (s ++ t) = q.feedAll t := feedAll_append hs rfl

theorem feedAll_cons_silent {p q : VtParser} {ch : Char} (h : p.feed ch = (q, [])) (t : Chars) :
    p.feedAll (ch :: t) = q.feedAll t := feedAll_cons h rfl

theorem feedUnits_append {p q r : VtParser} {s t : List ℕ} {events more : List Event}
    (hs : p.feedUnits s = (q, events)) (ht : q.feedUnits t = (r, more)) :
    p.feedUnits (s ++ t) = (r, events ++ more) := by
  induction s generalizing p events with
  | nil =>
    obtain ⟨rfl, rfl⟩ := Prod.mk.inj hs
    simpa using ht
  | cons unit s ih =>
    obtain ⟨rfl, rfl⟩ := Prod.mk.inj hs
    rw [List.cons_append, feedUnits, ih rfl, List.append_assoc]

theorem digitValue_digitChar {d : ℕ} (h : d < 10) : digitValue (Nat.digitChar d) = d := by
  have hall : ∀ d : Fin 10, digitValue (Nat.digitChar d) = d := by decide
  exact hall ⟨d, h⟩

theorem digitValue_le {ch : Char} (h : ch.isDigit = true) : digitValue ch ≤ 9 := by
  have hle : ch.toNat ≤ 57 := (Char.isDigit_iff_toNat.mp h).2
  rw [digitValue]
  omega

theorem addDigit_le (cur : ℕ) (ch : Char) : addDigit cur ch ≤ u16Max := min_le_left _ _

theorem addDigit_zero {ch : Char} (h : ch.isDigit = true) : addDigit 0 ch = digitValue ch := by
  have hle := digitValue_le h
  rw [addDigit, u16Max]
  omega

/-- The digits of a number that fits are read as that number. -/
theorem addDigits_toDigits {n : ℕ} (h : n ≤ u16Max) : (Nat.toDigits 10 n).foldl addDigit 0 = n := by
  induction n using Nat.strongRecOn with
  | ind n ih =>
    by_cases hlt : n < 10
    · rw [Nat.toDigits_of_lt_base hlt, List.foldl_cons, List.foldl_nil, addDigit,
        digitValue_digitChar hlt, u16Max]
      omega
    · rw [Nat.toDigits_of_base_le (by decide) (by omega), List.foldl_append,
        ih (n / 10) (by omega) (by rw [u16Max] at h ⊢; omega), List.foldl_cons, List.foldl_nil,
        addDigit, digitValue_digitChar (Nat.mod_lt n (by decide)), u16Max]
      rw [u16Max] at h
      omega

theorem isDigit_of_mem_toDigits {n : ℕ} {ch : Char} (h : ch ∈ Nat.toDigits 10 n) :
    ch.isDigit = true := Nat.isDigit_of_mem_toDigits (by decide) (by decide) h

end VtParser

section
open VtParser

/-- The modifiers in the registers of a key sequence. -/
def registerMods (p : VtParser) : KeyModifiers :=
  if 2 ≤ p.pidx then decodeModifiers p.params[1] else .empty

theorem dispatchCsi_letter {p : VtParser} (hpriv : p.privCh = none) {final : Char} {code : KeyCode}
    (hkey : finalKey final = some code) (hne : final ≠ '~') :
    p.dispatchCsi final = ({ p with state := .ground }, [.key code (registerMods p)]) := by
  rw [dispatchCsi, if_neg (by rw [hpriv]; nofun), if_neg (by rw [hpriv]; nofun),
    if_neg fun h => hne h.1, hkey]
  rfl

theorem dispatchCsi_tilde {p : VtParser} (hpriv : p.privCh = none) {code : KeyCode}
    (hkey : tildeKey p.params[0] = some code) (hne : p.params[0] ≠ 200) :
    p.dispatchCsi '~' = ({ p with state := .ground }, [.key code (registerMods p)]) := by
  have hevents : p.dispatchTilde (registerMods p) = [.key code (registerMods p)] := by
    rw [dispatchTilde, hkey]
    rfl
  rw [dispatchCsi, if_neg (by rw [hpriv]; nofun), if_neg (by rw [hpriv]; nofun),
    if_neg fun h => hne h.2.2, ← hevents]
  rfl

end

/-- From the ground state a text emits exactly these events and leads back to it. -/
def Decodes (text : Chars) (events : List Event) : Prop :=
  ∀ p : VtParser, p.state = .ground →
    ∃ q : VtParser, p.feedAll text = (q, events) ∧ q.state = .ground

theorem Decodes.append {s t : Chars} {events more : List Event} (hs : Decodes s events)
    (ht : Decodes t more) : Decodes (s ++ t) (events ++ more) := by
  intro p hp
  obtain ⟨q, hq, hqs⟩ := hs p hp
  obtain ⟨r, hr, hrs⟩ := ht q hqs
  exact ⟨r, VtParser.feedAll_append hq hr, hrs⟩

theorem decodes_nil : Decodes [] [] := fun p hp => ⟨p, rfl, hp⟩

/-- Texts that lead back to the ground state are decoded one by one. -/
theorem decodes_flatMap {inputs : List (Chars × List Event)}
    (h : ∀ i ∈ inputs, Decodes i.1 i.2) :
    Decodes (inputs.flatMap Prod.fst) (inputs.flatMap Prod.snd) := by
  induction inputs with
  | nil => exact decodes_nil
  | cons i inputs ih =>
    exact (h i List.mem_cons_self).append (ih fun j hj => h j (List.mem_cons_of_mem _ hj))

end Winsmux.Input
