import Winsmux.Input.Sequences

/-!
# Bracketed paste

Inside a paste the parser looks for one end marker. What turns out not to be the marker is
given back, a number by its value: a partial marker at the end of the text hides the real
one, and a number that is not written the shortest way is changed.
-/
namespace Winsmux.Input
open VtParser
open CharText (Chars)

def pasteStart : Chars := ['\x1b', '[', '2', '0', '0', '~']

def pasteEnd : Chars := ['\x1b', '[', '2', '0', '1', '~']

/-- A text of whole pieces, as the parser reads it inside a paste: a character, an escape with
the character behind it, an escape and bracket with a character that is not a digit, or an
escape and bracket with a number written the shortest way that is no end marker. -/
inductive PasteText : Chars → Prop where
  | nil : PasteText []
  | char (ch : Char) (t : Chars) (h : ch ≠ '\x1b') (ht : PasteText t) : PasteText (ch :: t)
  | escape (ch : Char) (t : Chars) (h : ch ≠ '[') (ht : PasteText t) :
      PasteText ('\x1b' :: ch :: t)
  | bracket (ch : Char) (t : Chars) (h : ch.isDigit = false) (ht : PasteText t) :
      PasteText ('\x1b' :: '[' :: ch :: t)
  | number (n : ℕ) (ch : Char) (t : Chars) (hn : n ≤ u16Max) (h : ch.isDigit = false)
      (hend : ¬ (ch = '~' ∧ n = 201)) (ht : PasteText t) :
      PasteText ('\x1b' :: '[' :: (Nat.toDigits 10 n ++ ch :: t))

section Steps
variable {p : VtParser} {ch : Char}

theorem feed_paste (hp : p.state = .paste) : p.feed ch = p.onPaste ch := by rw [feed, hp]

theorem feed_pasteEsc (hp : p.state = .pasteEsc) : p.feed ch = p.onPasteEsc ch := by rw [feed, hp]

theorem feed_pasteBrk (hp : p.state = .pasteBrk) : p.feed ch = p.onPasteBrk ch := by rw [feed, hp]

theorem feed_pasteNum (hp : p.state = .pasteNum) : p.feed ch = p.onPasteNum ch := by rw [feed, hp]

theorem feed_paste_char (hp : p.state = .paste) (h : ch ≠ '\x1b') :
    p.feed ch = ({ p with paste := p.paste ++ [ch] }, []) := (feed_paste hp).trans (if_neg h)

theorem feed_paste_escape (hp : p.state = .paste) :
    p.feed '\x1b' = ({ p with state := .pasteEsc }, []) := feed_paste hp

theorem feed_pasteEsc_bracket (hp : p.state = .pasteEsc) :
    p.feed '[' = ({ p with state := .pasteBrk }, []) := feed_pasteEsc hp

theorem feed_pasteEsc_char (hp : p.state = .pasteEsc) (h : ch ≠ '[') :
    p.feed ch = ({ p with paste := p.paste ++ ['\x1b', ch], state := .paste }, []) :=
  (feed_pasteEsc hp).trans (if_neg h)

theorem feed_pasteBrk_digit (hp : p.state = .pasteBrk) (h : ch.isDigit = true) :
    p.feed ch = ({ p with cur := digitValue ch, state := .pasteNum }, []) :=
  (feed_pasteBrk hp).trans (if_pos h)

theorem feed_pasteBrk_char (hp : p.state = .pasteBrk) (h : ch.isDigit = false) :
    p.feed ch = ({ p with paste := p.paste ++ ['\x1b', '[', ch], state := .paste }, []) :=
  (feed_pasteBrk hp).trans (if_neg (by simp [h]))

theorem feed_pasteNum_digit (hp : p.state = .pasteNum) (h : ch.isDigit = true) :
    p.feed ch = ({ p with cur := addDigit p.cur ch }, []) := (feed_pasteNum hp).trans (if_pos h)

theorem feed_pasteNum_end (hp : p.state = .pasteNum) (h : p.cur = 201) :
    p.feed '~' = ({ p with paste := [], state := .ground }, [.paste p.paste]) :=
  ((feed_pasteNum hp).trans (if_neg (by decide))).trans (if_pos ⟨rfl, h⟩)

theorem feed_pasteNum_char (hp : p.state = .pasteNum) (h : ch.isDigit = false)
    (hend : ¬ (ch = '~' ∧ p.cur = 201)) :
    p.feed ch = ({ p with
      paste := p.paste ++ '\x1b' :: '[' :: (Nat.toDigits 10 p.cur ++ [ch]), cur := 0,
      state := .paste }, []) :=
  ((feed_pasteNum hp).trans (if_neg (by simp [h]))).trans (if_neg hend)

end Steps

theorem feedAll_paste_open {p : VtParser} (hp : p.state = .paste) :
    p.feedAll ['\x1b', '['] = ({ p with state := .pasteBrk }, []) :=
  feedAll_cons (feed_paste_escape hp) (feedAll_cons (feed_pasteEsc_bracket rfl) rfl)

/-- Digits behind an escape and bracket. -/
theorem feedAll_pasteNum {p : VtParser} (hp : p.state = .pasteNum) {digits : Chars}
    (h : ∀ d ∈ digits, d.isDigit = true) :
    p.feedAll digits = ({ p with cur := digits.foldl addDigit p.cur }, []) := by
  induction digits generalizing p with
  | nil => rfl
  | cons d digits ih =>
    have hd := feed_pasteNum_digit hp (h d List.mem_cons_self)
    exact feedAll_cons hd (ih hp fun e he => h e (List.mem_cons_of_mem _ he))

theorem feedAll_pasteBrk {p : VtParser} (hp : p.state = .pasteBrk) {digits : Chars}
    (hne : digits ≠ []) (h : ∀ d ∈ digits, d.isDigit = true) :
    p.feedAll digits = ({ p with cur := digits.foldl addDigit 0, state := .pasteNum }, []) := by
  cases digits with
  | nil => exact absurd rfl hne
  | cons d digits =>
    have hd := h d List.mem_cons_self
    rw [List.foldl_cons, addDigit_zero hd]
    exact feedAll_cons (feed_pasteBrk_digit hp hd)
      (feedAll_pasteNum rfl fun e he => h e (List.mem_cons_of_mem _ he))

/-- The front of a number piece: the escape, the bracket and the digits. -/
theorem feedAll_paste_digits {p : VtParser} (hp : p.state = .paste) {digits : Chars}
    (hne : digits ≠ []) (h : ∀ d ∈ digits, d.isDigit = true) :
    p.feedAll ('\x1b' :: '[' :: digits) =
      ({ p with cur := digits.foldl addDigit 0, state := .pasteNum }, []) :=
  feedAll_append (feedAll_paste_open hp) (feedAll_pasteBrk rfl hne h)

/-- A number piece is given back by its value. -/
theorem feedAll_paste_number {p : VtParser} (hp : p.state = .paste) {digits : Chars} {ch : Char}
    (hne : digits ≠ []) (h : ∀ d ∈ digits, d.isDigit = true) (hch : ch.isDigit = false)
    (hend : ¬ (ch = '~' ∧ digits.foldl addDigit 0 = 201)) :
    p.feedAll ('\x1b' :: '[' :: (digits ++ [ch])) = ({ p with
      paste := p.paste ++ '\x1b' :: '[' :: (Nat.toDigits 10 (digits.foldl addDigit 0) ++ [ch]),
      cur := 0, state := .paste }, []) :=
  feedAll_append (s := '\x1b' :: '[' :: digits) (feedAll_paste_digits hp hne h)
    (feedAll_cons (feed_pasteNum_char rfl hch hend) rfl)

/-- The end marker. -/
theorem feedAll_pasteEnd {p : VtParser} (hp : p.state = .paste) :
    p.feedAll pasteEnd =
      ({ p with cur := 201, paste := [], state := .ground }, [.paste p.paste]) := by
  have hvalue : ['2', '0', '1'].foldl addDigit 0 = 201 := by decide
  have hfront := @feedAll_paste_digits p hp ['2', '0', '1'] (by simp) (List.all_eq_true.1 rfl)
  rw [hvalue] at hfront
  exact feedAll_append hfront (feedAll_cons (feed_pasteNum_end rfl rfl) rfl)

/-- The start marker, whatever the registers held. -/
theorem feedAll_pasteStart {p : VtParser} (hp : p.state = .ground) :
    ∃ q, p.feedAll pasteStart = (q, []) ∧ q.state = .paste ∧ q.paste = [] := by
  have htext : pasteStart = csiText none [200] '~' := by decide
  have hstart : ([200].foldl pushParam (p.csiParser none)).dispatchCsi '~' =
      ({ [200].foldl pushParam (p.csiParser none) with paste := [], state := .paste }, []) :=
    ((if_neg nofun).trans (if_neg nofun)).trans (if_pos ⟨rfl, le_rfl, rfl⟩)
  rw [htext, feedAll_csiText hp (.inl rfl) (by simp) (by simp [u16Max]) (by decide), hstart]
  exact ⟨_, rfl, rfl, rfl⟩

/-- A text of whole pieces is collected as it is. -/
theorem feedAll_pasteText {t : Chars} (ht : PasteText t) {p : VtParser} (hp : p.state = .paste) :
    ∃ q, p.feedAll t = (q, []) ∧ q.state = .paste ∧ q.paste = p.paste ++ t := by
  induction ht generalizing p with
  | nil => exact ⟨p, rfl, hp, by simp⟩
  | char ch t h _ ih =>
    obtain ⟨q, hq, hstate, hpaste⟩ := ih (p := { p with paste := p.paste ++ [ch] }) hp
    exact ⟨q, feedAll_cons (feed_paste_char hp h) hq, hstate, by simp [hpaste]⟩
  | escape ch t h _ ih =>
    obtain ⟨q, hq, hstate, hpaste⟩ :=
      ih (p := { p with paste := p.paste ++ ['\x1b', ch], state := .paste }) rfl
    exact ⟨q, feedAll_cons (feed_paste_escape hp) (feedAll_cons (feed_pasteEsc_char rfl h) hq),
      hstate, by simp [hpaste]⟩
  | bracket ch t h _ ih =>
    obtain ⟨q, hq, hstate, hpaste⟩ :=
      ih (p := { p with paste := p.paste ++ ['\x1b', '[', ch], state := .paste }) rfl
    exact ⟨q, feedAll_cons (feed_paste_escape hp) (feedAll_cons (feed_pasteEsc_bracket rfl)
      (feedAll_cons (feed_pasteBrk_char rfl h) hq)), hstate, by simp [hpaste]⟩
  | number n ch t hn h hend _ ih =>
    have hvalue := addDigits_toDigits hn
    have hpiece := feedAll_paste_number hp Nat.toDigits_ne_nil (fun _ => isDigit_of_mem_toDigits) h
      (hvalue.symm ▸ hend)
    rw [hvalue] at hpiece
    obtain ⟨q, hq, hstate, hpaste⟩ := ih (p := { p with
      paste := p.paste ++ '\x1b' :: '[' :: (Nat.toDigits 10 n ++ [ch]), cur := 0,
      state := .paste }) rfl
    refine ⟨q, ?_, hstate, by simp [hpaste]⟩
    have hrun := feedAll_append hpiece hq
    simpa using hrun

/-- The parser is inside a paste. -/
def Pasting (p : VtParser) : Prop :=
  p.state = .paste ∨ p.state = .pasteEsc ∨ p.state = .pasteBrk ∨ p.state = .pasteNum

/-- Inside a paste a character ends it, or adds to its text. -/
theorem feed_pasting {p : VtParser} (hp : Pasting p) (ch : Char) :
    (p.feed ch).2 = [.paste p.paste] ∨
      (p.feed ch).2 = [] ∧ Pasting (p.feed ch).1 ∧ p.paste <+: (p.feed ch).1.paste := by
  obtain hp | hp | hp | hp := hp
  · by_cases h : ch = '\x1b'
    · rw [h, feed_paste_escape hp]
      exact .inr ⟨rfl, .inr (.inl rfl), List.prefix_rfl⟩
    · rw [feed_paste_char hp h]
      exact .inr ⟨rfl, .inl hp, List.prefix_append _ _⟩
  · by_cases h : ch = '['
    · rw [h, feed_pasteEsc_bracket hp]
      exact .inr ⟨rfl, .inr (.inr (.inl rfl)), List.prefix_rfl⟩
    · rw [feed_pasteEsc_char hp h]
      exact .inr ⟨rfl, .inl rfl, List.prefix_append _ _⟩
  · cases h : ch.isDigit with
    | true =>
      rw [feed_pasteBrk_digit hp h]
      exact .inr ⟨rfl, .inr (.inr (.inr rfl)), List.prefix_rfl⟩
    | false =>
      rw [feed_pasteBrk_char hp h]
      exact .inr ⟨rfl, .inl rfl, List.prefix_append _ _⟩
  · cases h : ch.isDigit with
    | true =>
      rw [feed_pasteNum_digit hp h]
      exact .inr ⟨rfl, .inr (.inr (.inr hp)), List.prefix_rfl⟩
    | false =>
      by_cases hend : ch = '~' ∧ p.cur = 201
      · rw [hend.1, feed_pasteNum_end hp hend.2]
        exact .inl rfl
      · rw [feed_pasteNum_char hp h hend]
        exact .inr ⟨rfl, .inl rfl, List.prefix_append _ _⟩

/-- The first thing a paste emits is a paste that begins with the text collected so far. -/
theorem prefix_of_feedAll {p : VtParser} (hp : Pasting p) {s text : Chars} {more : List Event}
    (h : (p.feedAll s).2 = .paste text :: more) : p.paste <+: text := by
  induction s generalizing p with
  | nil => cases h
  | cons ch s ih =>
    rw [feedAll] at h
    dsimp only at h
    obtain hend | ⟨hnone, hpasting, hfirst⟩ := feed_pasting hp ch
    · rw [hend] at h
      obtain ⟨heq, -⟩ := List.cons.inj h
      obtain rfl := Event.paste.inj heq
      exact List.prefix_rfl
    · rw [hnone] at h
      exact hfirst.trans (ih hpasting h)

theorem pasteText_markerRest : PasteText ['[', '2', '0', '1', '~'] := by
  repeat' first | exact .nil | refine .char _ _ (by decide) ?_

/-- Where the escape of the end marker is taken for the end of a piece, the marker is lost. -/
theorem feedAll_hidden {p q : VtParser} {front : Chars}
    (h : p.feedAll (front ++ ['\x1b']) = (q, [])) (hq : q.state = .paste) :
    (p.feedAll (front ++ pasteEnd)).2 = [] := by
  have htext : front ++ pasteEnd = front ++ ['\x1b'] ++ ['[', '2', '0', '1', '~'] := by
    rw [List.append_assoc]
    rfl
  obtain ⟨r, hr, -⟩ := feedAll_pasteText pasteText_markerRest hq
  rw [htext, feedAll_silent h, hr]

theorem takeWhile_digits {digits rest : Chars} {ch : Char} (h : ∀ d ∈ digits, d.isDigit = true)
    (hch : ch.isDigit = false) : (digits ++ ch :: rest).takeWhile Char.isDigit = digits := by
  rw [List.takeWhile_append_of_pos h, List.takeWhile_cons_of_neg (by simp [hch]), List.append_nil]

/-- Digits that are given back as they were are the shortest way to write their value. -/
theorem digits_of_prefix {digits rest : Chars} {ch : Char} (h : ∀ d ∈ digits, d.isDigit = true)
    (hch : ch.isDigit = false) {n : ℕ} (hfirst : Nat.toDigits 10 n ++ [ch] <+: digits ++ ch :: rest) :
    Nat.toDigits 10 n = digits := by
  obtain ⟨more, hmore⟩ := hfirst
  rw [List.append_assoc, List.singleton_append] at hmore
  have htake := congrArg (List.takeWhile Char.isDigit) hmore
  rwa [takeWhile_digits (fun _ => isDigit_of_mem_toDigits) hch, takeWhile_digits h hch] at htake

theorem addDigits_le {digits : Chars} (hne : digits ≠ []) : digits.foldl addDigit 0 ≤ u16Max := by
  obtain ⟨front, d, rfl⟩ := List.eq_nil_or_concat' digits |>.resolve_left hne
  rw [List.foldl_append]
  exact addDigit_le _ _

theorem exists_digits (t : Chars) : ∃ digits rest, t = digits ++ rest ∧
    (∀ d ∈ digits, d.isDigit = true) ∧ ∀ c r, rest = c :: r → c.isDigit = false := by
  induction t with
  | nil => exact ⟨[], [], rfl, nofun, nofun⟩
  | cons c t ih =>
    cases hc : c.isDigit with
    | true =>
      obtain ⟨digits, rest, rfl, hdigits, hrest⟩ := ih
      exact ⟨c :: digits, rest, rfl, List.forall_mem_cons.mpr ⟨hc, hdigits⟩, hrest⟩
    | false =>
      refine ⟨[], c :: t, rfl, nofun, ?_⟩
      rintro d r heq
      rw [← (List.cons.inj heq).1, hc]

/-- A number in a text that is pasted as it is. -/
theorem pasteText_number {p : VtParser} (hp : p.state = .paste) {digits rest : Chars} {d ch : Char}
    (hdigits : ∀ e ∈ d :: digits, e.isDigit = true) (hch : ch.isDigit = false) {more : List Event}
    (h : (p.feedAll ('\x1b' :: '[' :: (d :: digits ++ ch :: rest) ++ pasteEnd)).2 =
      .paste (p.paste ++ '\x1b' :: '[' :: (d :: digits ++ ch :: rest)) :: more)
    (hpiece : ∀ {piece more : Chars} {q : VtParser},
      '\x1b' :: '[' :: (d :: digits ++ ch :: rest) = piece ++ more → piece ≠ [] →
      p.feedAll piece = (q, []) → q.state = .paste → q.paste = p.paste ++ piece → PasteText more) :
    PasteText ('\x1b' :: '[' :: (d :: digits ++ ch :: rest)) := by
  by_cases hend : ch = '~' ∧ (d :: digits).foldl addDigit 0 = 201
  · have htext : '\x1b' :: '[' :: (d :: digits ++ ch :: rest) ++ pasteEnd =
        '\x1b' :: '[' :: (d :: digits) ++ ch :: (rest ++ pasteEnd) := by simp
    rw [htext, feedAll_silent (feedAll_paste_digits hp (by simp) hdigits), feedAll, hend.1,
      feed_pasteNum_end rfl hend.2] at h
    have heq := Event.paste.inj (List.cons.inj h).1
    cases List.self_eq_append_right.mp heq
  · have hrun := feedAll_paste_number hp (by simp) hdigits hch hend
    have htext : '\x1b' :: '[' :: (d :: digits ++ ch :: rest) ++ pasteEnd =
        '\x1b' :: '[' :: (d :: digits ++ [ch]) ++ (rest ++ pasteEnd) := by simp
    rw [htext, feedAll_silent hrun] at h
    have hfirst := prefix_of_feedAll (.inl rfl) h
    rw [List.prefix_append_right_inj, List.cons_prefix_cons, List.cons_prefix_cons] at hfirst
    have hshort := digits_of_prefix hdigits hch hfirst.2.2
    rw [hshort] at hrun
    have hrest := @hpiece ('\x1b' :: '[' :: (d :: digits ++ [ch])) rest _ (by simp)
      (by simp) hrun rfl rfl
    have hpasted := PasteText.number _ ch rest (addDigits_le (by simp)) hch hend hrest
    rwa [hshort] at hpasted

/-- A text that is pasted as it is consists of whole pieces. -/
theorem pasteText_of_feedAll (t : Chars) {p : VtParser} (hp : p.state = .paste) {more : List Event}
    (h : (p.feedAll (t ++ pasteEnd)).2 = .paste (p.paste ++ t) :: more) : PasteText t := by
  induction hn : t.length using Nat.strongRecOn generalizing t p with
  | ind n ih =>
  have hlost {front : Chars} {q : VtParser} (hfront : p.feedAll (front ++ ['\x1b']) = (q, []))
      (hq : q.state = .paste) : t ≠ front := by
    rintro rfl
    rw [feedAll_hidden hfront hq] at h
    cases h
  -- a piece that is given back as it is, and the rest of the text
  have hpiece {piece rest : Chars} {q : VtParser} (ht : t = piece ++ rest) (hne : piece ≠ [])
      (hrun : p.feedAll piece = (q, [])) (hq : q.state = .paste)
      (hpaste : q.paste = p.paste ++ piece) : PasteText rest := by
    subst ht
    have hpos := List.length_pos_of_ne_nil hne
    refine ih rest.length (by rw [← hn, List.length_append]; omega) rest hq ?_ rfl
    rwa [List.append_assoc, feedAll_silent hrun, ← List.append_assoc, ← hpaste] at h
  match t with
  | [] => exact .nil
  | ch :: t =>
    by_cases hch : ch = '\x1b'
    · subst hch
      match t with
      | [] =>
        exact absurd rfl (@hlost ['\x1b'] _
          (feedAll_cons (feed_paste_escape hp)
            (feedAll_cons (feed_pasteEsc_char rfl (by decide)) rfl)) rfl)
      | ch :: t =>
        by_cases hch : ch = '['
        · subst hch
          obtain ⟨digits, rest, rfl, hdigits, hrest⟩ := exists_digits t
          have hopen := feedAll_paste_open hp
          cases digits with
          | nil =>
            cases rest with
            | nil =>
              exact absurd rfl (@hlost ['\x1b', '['] _
                (feedAll_append hopen (feedAll_cons (feed_pasteBrk_char rfl (by decide)) rfl)) rfl)
            | cons ch rest =>
              have hch := hrest ch rest rfl
              exact .bracket ch rest hch (@hpiece ['\x1b', '[', ch] _ _ rfl (by simp)
                (feedAll_append hopen (feedAll_cons (feed_pasteBrk_char rfl hch) rfl)) rfl rfl)
          | cons d digits =>
            cases rest with
            | nil =>
              exact absurd (by simp) (@hlost ('\x1b' :: '[' :: (d :: digits)) _
                (feedAll_paste_number hp (by simp) hdigits (by decide) (by simp)) rfl)
            | cons ch rest => exact pasteText_number hp hdigits (hrest ch rest rfl) h hpiece
        · exact .escape ch t hch (@hpiece ['\x1b', ch] _ _ rfl (by simp)
            (feedAll_cons (feed_paste_escape hp)
              (feedAll_cons (feed_pasteEsc_char rfl hch) rfl)) rfl rfl)
    · exact .char ch t hch (@hpiece [ch] _ _ rfl (by simp)
        (feedAll_cons (feed_paste_char hp hch) rfl) hp rfl)

def pasted (t : Chars) : Chars := pasteStart ++ t ++ pasteEnd

/-- A pasted text is one event, whatever came before it. -/
theorem decodes_pasted {t : Chars} (ht : PasteText t) : Decodes (pasted t) [.paste t] := by
  intro p hp
  obtain ⟨q, hq, hqs, hqp⟩ := feedAll_pasteStart hp
  obtain ⟨r, hr, hrs, hrp⟩ := feedAll_pasteText ht hqs
  have hend := feedAll_pasteEnd hrs
  rw [hrp, hqp, List.nil_append] at hend
  exact ⟨_, feedAll_append (feedAll_append hq hr) hend, rfl⟩

/-- A text that is the first paste of its pasted form. -/
theorem pasteText_of_pasted {t : Chars} {more : List Event}
    (h : (VtParser.new.feedAll (pasted t)).2 = .paste t :: more) : PasteText t := by
  obtain ⟨q, hq, hqs, hqp⟩ := feedAll_pasteStart (p := .new) rfl
  rw [pasted, List.append_assoc, feedAll_silent hq] at h
  have hfirst : (q.feedAll (t ++ pasteEnd)).2 = .paste (q.paste ++ t) :: more := by
    rw [h, hqp]
    rfl
  exact pasteText_of_feedAll t hqs hfirst

theorem pasteText_of_decodes {t : Chars} (h : Decodes (pasted t) [.paste t]) : PasteText t := by
  obtain ⟨r, hr, -⟩ := h .new rfl
  exact pasteText_of_pasted (congrArg Prod.snd hr)

/-- Bracketed paste is transparent exactly for texts of whole pieces. Between other inputs that
lead back to the ground state, such a text is one event and leaves them as they are. -/
theorem paste_transparent_iff (t : Chars) :
    (Decodes (pasted t) [.paste t] ∧ ∀ before after events more, Decodes before events →
      Decodes after more →
      Decodes (before ++ (pasted t ++ after)) (events ++ ([.paste t] ++ more))) ↔ PasteText t := by
  constructor
  · exact fun h => pasteText_of_decodes h.1
  · intro ht
    refine ⟨decodes_pasted ht, fun before after events more hbefore hafter => ?_⟩
    exact hbefore.append ((decodes_pasted ht).append hafter)

/-- A text that ends in an escape hides the end marker, and the paste goes on. -/
theorem not_transparent_escape :
    ¬ ∀ t : Chars, ¬ pasteEnd <:+: t → Decodes (pasted t) [.paste t] := by
  intro h
  obtain ⟨q, hq, -⟩ := h ['\x1b'] (by decide) .new rfl
  have hnone : (VtParser.new.feedAll (pasted ['\x1b'])).2 = [] := by decide
  rw [hq] at hnone
  cases hnone

/-- A number that begins with a zero is changed. -/
example : (VtParser.new.feedAll (pasted ['\x1b', '[', '0', '1', 'm'])).2 =
    [.paste ['\x1b', '[', '1', 'm']] := by decide

end Winsmux.Input
