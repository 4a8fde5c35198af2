import Mathlib.Tactic

/-!
# UTF-8 with replacement

Which byte sequences are characters, and the decoder that writes the replacement character
for every maximal part of a sequence that no character continues.
-/
namespace Winsmux.Utf8

/-- How many bytes follow, and the bounds of the next one. -/
structure Expected where
  more : ℕ
  low : UInt8
  high : UInt8
  deriving DecidableEq

/-- What follows a first byte, where a character begins with it. -/
def afterFirst (a : UInt8) : Option Expected :=
  if a ≤ 0x7f then some ⟨0, 0x80, 0xbf⟩
  else if 0xc2 ≤ a ∧ a ≤ 0xdf then some ⟨1, 0x80, 0xbf⟩
  else if a = 0xe0 then some ⟨2, 0xa0, 0xbf⟩
  else if a = 0xed then some ⟨2, 0x80, 0x9f⟩
  else if 0xe1 ≤ a ∧ a ≤ 0xef then some ⟨2, 0x80, 0xbf⟩
  else if a = 0xf0 then some ⟨3, 0x90, 0xbf⟩
  else if 0xf1 ≤ a ∧ a ≤ 0xf3 then some ⟨3, 0x80, 0xbf⟩
  else if a = 0xf4 then some ⟨3, 0x80, 0x8f⟩
  else none

def Expected.accepts (e : Expected) (c : UInt8) : Bool := e.low ≤ c && c ≤ e.high

def Expected.next (e : Expected) : Expected := ⟨e.more - 1, 0x80, 0xbf⟩

/-- The bytes are the rest of a character. -/
def Expected.completes (e : Expected) : List UInt8 → Bool
  | [] => e.more = 0
  | c :: t => e.more ≠ 0 && e.accepts c && e.next.completes t

def isChar : List UInt8 → Bool
  | [] => false
  | a :: t => (afterFirst a).any (·.completes t)

/-- The bytes of a text: characters, one after another. -/
def IsText (t : List UInt8) : Prop := ∃ chars : List (List UInt8), (∀ c ∈ chars, isChar c) ∧ chars.flatten = t

def replacement : List UInt8 := [0xef, 0xbf, 0xbd]

/-- The front of a character, and what should follow. -/
structure Pending where
  bytes : List UInt8
  expected : Expected

/-- A byte where a character may begin: what is decoded, and the character it begins. -/
def beginChar (a : UInt8) : List UInt8 × Option Pending :=
  match afterFirst a with
  | none => (replacement, none)
  | some e => if e.more = 0 then ([a], none) else ([], some ⟨[a], e⟩)

def decodeByte : Option Pending → UInt8 → List UInt8 × Option Pending
  | none, c => beginChar c
  | some p, c =>
    if p.expected.accepts c then
      if p.expected.more = 1 then (p.bytes ++ [c], none) else ([], some ⟨p.bytes ++ [c], p.expected.next⟩)
    else (replacement ++ (beginChar c).1, (beginChar c).2)

def decodeFrom : Option Pending → List UInt8 → List UInt8
  | none, [] => []
  | some _, [] => replacement
  | p, c :: t => (decodeByte p c).1 ++ decodeFrom (decodeByte p c).2 t

def fromUtf8Lossy (t : List UInt8) : List UInt8 := decodeFrom none t

example : fromUtf8Lossy [0x61, 0xc3, 0xa9, 0xf0, 0x9f, 0x98, 0x62] =
    [0x61, 0xc3, 0xa9, 0xef, 0xbf, 0xbd, 0x62] := by decide

theorem IsText.append {s t : List UInt8} (hs : IsText s) (ht : IsText t) : IsText (s ++ t) := by
  obtain ⟨cs, hcs, rfl⟩ := hs
  obtain ⟨ds, hds, rfl⟩ := ht
  exact ⟨cs ++ ds, by simpa [or_imp, forall_and] using ⟨hcs, hds⟩, List.flatten_append⟩

theorem isText_of_isChar {c : List UInt8} (h : isChar c) : IsText c := ⟨[c], by simpa using h, by simp⟩

theorem decodeFrom_cons (p : Option Pending) (c : UInt8) (t : List UInt8) :
    decodeFrom p (c :: t) = (decodeByte p c).1 ++ decodeFrom (decodeByte p c).2 t := by
  cases p <;> rfl

theorem decodeFrom_completes {p : Pending} {s : List UInt8} (h : p.expected.completes s) (hmore : p.expected.more ≠ 0)
    (t : List UInt8) : decodeFrom (some p) (s ++ t) = p.bytes ++ s ++ decodeFrom none t := by
  induction s generalizing p with
  | nil => simp [Expected.completes, hmore] at h
  | cons c s ih =>
    simp only [Expected.completes, Bool.and_eq_true] at h
    obtain ⟨⟨-, haccepts⟩, hs⟩ := h
    rw [List.cons_append, decodeFrom_cons, decodeByte, if_pos haccepts]
    split
    · next hone =>
      -- the last byte of the character
      have hnil : s = [] := by
        cases s with
        | nil => rfl
        | cons d s => simp [Expected.completes, Expected.next, hone] at hs
      simp [hnil]
    · next hone =>
      have hnext : p.expected.next.more ≠ 0 := Nat.sub_ne_zero_of_lt (by omega)
      rw [List.nil_append, ih hs hnext]
      simp

theorem decodeFrom_char {c : List UInt8} (h : isChar c) (t : List UInt8) :
    decodeFrom none (c ++ t) = c ++ decodeFrom none t := by
  cases c with
  | nil => simp [isChar] at h
  | cons a s =>
    obtain ⟨e, he, hs⟩ : ∃ e, afterFirst a = some e ∧ e.completes s := by
      simpa [isChar, Option.any_eq_true] using h
    rw [List.cons_append, decodeFrom_cons, decodeByte, beginChar, he]
    dsimp only
    split
    · next hzero =>
      have hnil : s = [] := by
        cases s with
        | nil => rfl
        | cons d s => simp [Expected.completes, hzero] at hs
      simp [hnil]
    · next hmore =>
      rw [List.nil_append, decodeFrom_completes hs hmore]
      simp

theorem fromUtf8Lossy_of_isText {t : List UInt8} (h : IsText t) : fromUtf8Lossy t = t := by
  obtain ⟨chars, hchars, rfl⟩ := h
  induction chars with
  | nil => rfl
  | cons c chars ih =>
    obtain ⟨hc, hchars⟩ := List.forall_mem_cons.1 hchars
    have hrest : decodeFrom none chars.flatten = chars.flatten := ih hchars
    rw [fromUtf8Lossy, List.flatten_cons, decodeFrom_char hc, hrest]

/-- The bytes begin a character that what is expected completes. -/
structure Pending.Begins (p : Pending) (a : UInt8) (e : Expected) (s : List UInt8) : Prop where
  bytes : p.bytes = a :: s
  first : afterFirst a = some e
  more : e.more = s.length + p.expected.more
  pos : 0 < p.expected.more
  completes : ∀ t, p.expected.completes t → e.completes (s ++ t)

def Held (p : Option Pending) : Prop := ∀ q ∈ p, ∃ a e s, q.Begins a e s

def held (p : Option Pending) : List UInt8 := p.elim [] Pending.bytes

theorem more_le {a : UInt8} {e : Expected} (h : afterFirst a = some e) : e.more ≤ 3 := by
  unfold afterFirst at h
  split_ifs at h <;> cases h <;> decide

theorem Pending.Begins.length_le {p : Pending} {a : UInt8} {e : Expected} {s : List UInt8}
    (h : p.Begins a e s) : p.bytes.length ≤ 3 := by
  have hle := more_le h.first
  have hmore := h.more
  have hpos := h.pos
  rw [h.bytes, List.length_cons]
  omega

theorem Pending.Begins.ne_replacement {p : Pending} {a : UInt8} {e : Expected} {s : List UInt8}
    (h : p.Begins a e s) : p.bytes ≠ replacement := by
  intro hp
  rw [h.bytes] at hp
  obtain ⟨rfl, rfl⟩ := List.cons.inj hp
  have hfirst := h.first
  have he : afterFirst 0xef = some ⟨2, 0x80, 0xbf⟩ := by decide
  rw [he] at hfirst
  obtain rfl := Option.some.inj hfirst
  have hmore : 2 = 2 + p.expected.more := h.more
  have hpos := h.pos
  omega

theorem held_beginChar (a : UInt8) : Held (beginChar a).2 := by
  intro q hq
  rw [beginChar] at hq
  split at hq
  · contradiction
  · next e he =>
    split at hq
    · contradiction
    · next hmore =>
      obtain rfl := Option.some.inj hq
      exact ⟨a, e, [], rfl, he, by simp, Nat.pos_of_ne_zero hmore, fun t ht => ht⟩

/-- A byte is taken, or stands for no character. -/
theorem beginChar_cases (a : UInt8) :
    ((beginChar a).1 ++ held (beginChar a).2 = [a] ∧ IsText (beginChar a).1) ∨ beginChar a = (replacement, none) := by
  rw [beginChar]
  split
  · exact .inr rfl
  · next e he =>
    left
    split
    · next hzero =>
      refine ⟨rfl, isText_of_isChar ?_⟩
      simp [isChar, he, Expected.completes, hzero]
    · exact ⟨rfl, [], by simp, rfl⟩

theorem held_decodeByte {p : Option Pending} (hp : Held p) (c : UInt8) : Held (decodeByte p c).2 := by
  cases p with
  | none => exact held_beginChar c
  | some p =>
    rw [decodeByte]
    split
    · next haccepts =>
      split
      · intro q hq
        contradiction
      · next hone =>
        intro q hq
        obtain rfl := Option.some.inj hq
        obtain ⟨a, e, s, h⟩ := hp p rfl
        have hpos := h.pos
        have hmore := h.more
        have hnext : p.expected.more = p.expected.next.more + 1 := by
          rw [Expected.next, Nat.sub_add_cancel hpos]
        refine ⟨a, e, s ++ [c], by simp [h.bytes], h.first, ?_, ?_, fun t ht => ?_⟩
        · rw [hmore, hnext, List.length_append, List.length_singleton, add_assoc, add_comm 1]
        · show 0 < p.expected.next.more
          omega
        · rw [List.append_assoc]
          refine h.completes _ ?_
          simp only [List.singleton_append, Expected.completes, Bool.and_eq_true]
          exact ⟨⟨by simpa using hpos.ne', haccepts⟩, ht⟩
    · exact held_beginChar c

/-- A byte goes on with the character that is held, or the held front is replaced. -/
theorem decodeByte_cases {p : Option Pending} (hp : Held p) (c : UInt8) :
    ((decodeByte p c).1 ++ held (decodeByte p c).2 = held p ++ [c] ∧ IsText (decodeByte p c).1) ∨
    ∃ out, (decodeByte p c).1 = replacement ++ out ∧
      (p = none ∨ 1 ≤ out.length + (held (decodeByte p c).2).length) := by
  cases p with
  | none =>
    obtain h | h := beginChar_cases c
    · exact .inl h
    · refine .inr ⟨[], ?_, .inl rfl⟩
      rw [decodeByte, h, List.append_nil]
  | some p =>
    rw [decodeByte]
    split
    · next haccepts =>
      left
      split
      · next hone =>
        obtain ⟨a, e, s, h⟩ := hp p rfl
        refine ⟨by simp [held], isText_of_isChar ?_⟩
        have hc : p.expected.completes [c] := by
          simp [Expected.completes, haccepts, hone, Expected.next]
        rw [h.bytes]
        simp [isChar, h.first, h.completes _ hc]
      · exact ⟨by simp [held], [], by simp, rfl⟩
    · refine .inr ⟨(beginChar c).1, rfl, .inr ?_⟩
      obtain h | h := beginChar_cases c
      · rw [← List.length_append, h.1]
        exact le_rfl
      · rw [h]
        decide

theorem length_le_decodeFrom {p : Option Pending} (hp : Held p) (t : List UInt8) :
    (held p).length + t.length ≤ (decodeFrom p t).length := by
  have hheld (q : Option Pending) (hq : Held q) : (held q).length ≤ 3 := by
    cases q with
    | none => decide
    | some q =>
      obtain ⟨a, e, s, h⟩ := hq q rfl
      exact h.length_le
  induction t generalizing p with
  | nil =>
    cases p with
    | none => exact le_rfl
    | some p => exact hheld _ hp
  | cons c t ih =>
    have hrest := ih (held_decodeByte hp c)
    have hle := hheld p hp
    rw [decodeFrom_cons, List.length_append, List.length_cons]
    obtain ⟨h, -⟩ | ⟨out, h, hout⟩ := decodeByte_cases hp c
    · have hlen := congrArg List.length h
      rw [List.length_append, List.length_append, List.length_singleton] at hlen
      omega
    · have hlen : (decodeByte p c).1.length = 3 + out.length := by
        rw [h, List.length_append]
        rfl
      obtain rfl | hout := hout
      · have hnone : (held none).length = 0 := rfl
        omega
      · omega

theorem isText_of_decodeFrom {p : Option Pending} (hp : Held p) {t : List UInt8}
    (h : decodeFrom p t = held p ++ t) : IsText (held p ++ t) := by
  induction t generalizing p with
  | nil =>
    cases p with
    | none => exact ⟨[], by simp, rfl⟩
    | some p =>
      obtain ⟨a, e, s, hb⟩ := hp p rfl
      refine absurd ?_ hb.ne_replacement
      simpa [held, decodeFrom] using h.symm
  | cons c t ih =>
    rw [decodeFrom_cons] at h
    obtain ⟨hout, htext⟩ | ⟨out, hout, hmore⟩ := decodeByte_cases hp c
    · -- the byte is taken: the rest is decoded as it is
      have hsplit : held p ++ c :: t = (decodeByte p c).1 ++ (held (decodeByte p c).2 ++ t) := by
        rw [← List.append_assoc, hout]
        simp
      rw [hsplit] at h ⊢
      exact htext.append (ih (held_decodeByte hp c) (List.append_cancel_left h))
    · -- what is held is no longer than the replacement, and differs from it
      exfalso
      have hrest := length_le_decodeFrom (held_decodeByte hp c) t
      have hlen := congrArg List.length h
      have hthree : replacement.length = 3 := rfl
      rw [hout, List.append_assoc] at h
      rw [hout] at hlen
      simp only [List.length_append, List.length_cons] at hlen
      cases p with
      | none =>
        have hnone : (held none).length = 0 := rfl
        omega
      | some p =>
        obtain ⟨a, e, s, hb⟩ := hp p rfl
        have hle := hb.length_le
        have hheld : (held (some p)).length = p.bytes.length := rfl
        obtain hnone | hmore := hmore
        · contradiction
        · have hsame : replacement.length = p.bytes.length := by omega
          exact hb.ne_replacement (List.append_inj_left h hsame).symm

theorem length_le_fromUtf8Lossy (t : List UInt8) : t.length ≤ (fromUtf8Lossy t).length := by
  have h := length_le_decodeFrom (p := none) (fun q hq => by contradiction) t
  simpa [held, fromUtf8Lossy] using h

theorem fromUtf8Lossy_eq_iff {t : List UInt8} : fromUtf8Lossy t = t ↔ IsText t :=
  ⟨fun h => isText_of_decodeFrom (p := none) (fun q hq => by contradiction) h, fromUtf8Lossy_of_isText⟩

/-- Pieces decoded one by one are the whole exactly where each is text by itself. -/
theorem flatten_fromUtf8Lossy_iff {pieces : List (List UInt8)} :
    (pieces.map fromUtf8Lossy).flatten = pieces.flatten ↔ ∀ piece ∈ pieces, IsText piece := by
  have hlength (ps : List (List UInt8)) : ps.flatten.length ≤ (ps.map fromUtf8Lossy).flatten.length := by
    induction ps with
    | nil => exact le_rfl
    | cons piece ps ih =>
      have hpiece := length_le_fromUtf8Lossy piece
      simp only [List.map_cons, List.flatten_cons, List.length_append]
      omega
  induction pieces with
  | nil => simp
  | cons piece pieces ih =>
    rw [List.forall_mem_cons, ← fromUtf8Lossy_eq_iff, List.map_cons, List.flatten_cons, List.flatten_cons]
    refine Iff.trans ?_ (and_congr_right fun _ => ih)
    constructor
    · intro h
      have hlen := congrArg List.length h
      rw [List.length_append, List.length_append] at hlen
      have hpiece := length_le_fromUtf8Lossy piece
      have hrest := hlength pieces
      exact List.append_inj h (by omega)
    · rintro ⟨h, hrest⟩
      rw [h, hrest]

end Winsmux.Utf8
