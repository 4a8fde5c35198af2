import Winsmux.Input.VtParser

/-!
# Control sequences

What a CSI sequence with its numbers leaves in the registers, whatever they held before.
-/
namespace Winsmux.Input
open CharText (Chars)
namespace VtParser

/-- The numbers of a sequence, as terminals write them. -/
def paramsText : List ℕ → Chars
  | [] => []
  | [n] => Nat.toDigits 10 n
  | n :: m :: ms => Nat.toDigits 10 n ++ ';' :: paramsText (m :: ms)

/-- The registers with a number behind those that are there. -/
def pushParam (p : VtParser) (n : ℕ) : VtParser := { p with cur := n }.finishParam

/-- The registers of a sequence that has its first characters. -/
def csiParser (p : VtParser) (priv : Option Char) : VtParser :=
  { p.resetCsi with privCh := priv, state := .csiParam }

section Steps
variable {p : VtParser} {ch : Char}

theorem feed_ground (hp : p.state = .ground) : p.feed ch = p.onGround ch := by rw [feed, hp]

theorem feed_escape (hp : p.state = .escape) : p.feed ch = p.onEscape ch := by rw [feed, hp]

theorem feed_csiEntry (hp : p.state = .csiEntry) : p.feed ch = p.onCsiEntry ch := by rw [feed, hp]

theorem feed_csiParam (hp : p.state = .csiParam) : p.feed ch = p.onCsiParam ch := by rw [feed, hp]

theorem feed_ss3 (hp : p.state = .ss3) : p.feed ch = p.onSs3 ch := by rw [feed, hp]

theorem feed_ground_escape (hp : p.state = .ground) :
    p.feed '\x1b' = ({ p with state := .escape }, []) := feed_ground hp

theorem feed_escape_bracket (hp : p.state = .escape) :
    p.feed '[' = ({ p.resetCsi with state := .csiEntry }, []) := feed_escape hp

theorem feed_csiParam_digit (hp : p.state = .csiParam) (h : ch.isDigit = true) :
    p.feed ch = ({ p with cur := addDigit p.cur ch, hasDigit := true }, []) :=
  (feed_csiParam hp).trans (if_pos h)

theorem feed_csiParam_semicolon (hp : p.state = .csiParam) : p.feed ';' = (p.finishParam, []) :=
  feed_csiParam hp

theorem isFinal_ne {ch c : Char} (h : isFinal ch = true) (hc : isFinal c = false) : ch ≠ c := by
  rintro rfl
  rw [h] at hc
  cases hc

theorem not_isDigit_of_isFinal {ch : Char} (h : isFinal ch = true) : ch.isDigit = false := by
  cases hd : ch.isDigit with
  | false => rfl
  | true =>
    exfalso
    obtain ⟨hlo, hhi⟩ := Char.isDigit_iff_toNat.mp hd
    have hle : ch.toNat ≤ 57 := hhi
    simp only [isFinal, Bool.or_eq_true, decide_eq_true_eq] at h
    obtain (h | h) | rfl := h
    · have hbounds : ch.val ≥ 'A'.val ∧ ch.val ≤ 'Z'.val := of_decide_eq_true h
      have hlo : 65 ≤ ch.toNat := UInt32.le_iff_toNat_le.mp hbounds.1
      omega
    · have hbounds : (decide (ch.val ≥ 'a'.val) && decide (ch.val ≤ 'z'.val)) = true := h
      have hlo : 97 ≤ ch.toNat := UInt32.le_iff_toNat_le.mp (of_decide_eq_true (Bool.and_eq_true_iff.1 hbounds).1)
      omega
    · cases hd

theorem feed_csiParam_final (hp : p.state = .csiParam) (h : isFinal ch = true) :
    p.feed ch = p.finishParam.dispatchCsi ch := by
  rw [feed_csiParam hp, onCsiParam, if_neg (by simp [not_isDigit_of_isFinal h]),
    if_neg (isFinal_ne h (by decide)), if_neg (isFinal_ne h (by decide)), if_pos h]

end Steps

theorem feedAll_digits {p : VtParser} (hp : p.state = .csiParam) {digits : Chars}
    (hne : digits ≠ []) (h : ∀ d ∈ digits, d.isDigit = true) :
    p.feedAll digits = ({ p with cur := digits.foldl addDigit p.cur, hasDigit := true }, []) := by
  induction digits generalizing p with
  | nil => exact absurd rfl hne
  | cons d digits ih =>
    have hd := feed_csiParam_digit hp (h d List.mem_cons_self)
    cases digits with
    | nil => exact feedAll_cons hd rfl
    | cons e digits =>
      exact feedAll_cons hd (ih hp (by simp) fun f hf => h f (List.mem_cons_of_mem _ hf))

theorem feedAll_number {p : VtParser} (hp : p.state = .csiParam) (hcur : p.cur = 0) {n : ℕ}
    (hn : n ≤ u16Max) :
    p.feedAll (Nat.toDigits 10 n) = ({ p with cur := n, hasDigit := true }, []) := by
  rw [feedAll_digits hp Nat.toDigits_ne_nil fun _ => isDigit_of_mem_toDigits, hcur,
    addDigits_toDigits hn]

theorem finishParam_number (p : VtParser) (n : ℕ) (b : Bool) :
    finishParam { p with cur := n, hasDigit := b } = p.pushParam n := by
  unfold pushParam finishParam
  split <;> rfl

@[simp] theorem pushParam_state (p : VtParser) (n : ℕ) : (p.pushParam n).state = p.state := by
  unfold pushParam finishParam
  split <;> rfl

@[simp] theorem pushParam_cur (p : VtParser) (n : ℕ) : (p.pushParam n).cur = 0 := by
  unfold pushParam finishParam
  split <;> rfl

/-- The numbers of a sequence and the character it ends in. -/
theorem feedAll_params {p : VtParser} (hp : p.state = .csiParam) (hcur : p.cur = 0)
    {ns : List ℕ} (hne : ns ≠ []) (hns : ∀ n ∈ ns, n ≤ u16Max) {final : Char}
    (hfinal : isFinal final = true) :
    p.feedAll (paramsText ns ++ [final]) = (ns.foldl pushParam p).dispatchCsi final := by
  induction ns generalizing p with
  | nil => exact absurd rfl hne
  | cons n ns ih =>
    have hnumber := feedAll_number hp hcur (hns n List.mem_cons_self)
    cases ns with
    | nil =>
      have hend := feed_csiParam_final (p := { p with cur := n, hasDigit := true }) hp hfinal
      rw [finishParam_number] at hend
      rw [paramsText, feedAll_silent hnumber, feedAll_singleton, hend]
      rfl
    | cons m ms =>
      have hstep := feed_csiParam_semicolon (p := { p with cur := n, hasDigit := true }) hp
      rw [finishParam_number] at hstep
      have hrest := ih (p := p.pushParam n) (by simp [hp]) (by simp) (by simp)
        fun k hk => hns k (List.mem_cons_of_mem _ hk)
      rw [paramsText, List.append_assoc, List.cons_append, feedAll_silent hnumber,
        feedAll_cons_silent hstep, hrest]
      rfl

/-- A CSI sequence with numbers: its private character, its numbers and its end. -/
def csiText (priv : Option Char) (ns : List ℕ) (final : Char) : Chars :=
  '\x1b' :: '[' :: (priv.toList ++ (paramsText ns ++ [final]))

/-- The first digit behind the bracket is read as in a number that has begun. -/
theorem feedAll_csiEntry {p : VtParser} {n : ℕ} {rest : Chars} :
    feedAll { p.resetCsi with state := .csiEntry } (Nat.toDigits 10 n ++ rest) =
      feedAll (p.csiParser none) (Nat.toDigits 10 n ++ rest) := by
  cases hd : Nat.toDigits 10 n with
  | nil => exact absurd hd Nat.toDigits_ne_nil
  | cons d digits =>
    have hdigit : d.isDigit = true := by
      apply isDigit_of_mem_toDigits (n := n)
      rw [hd]
      exact List.mem_cons_self
    have hentry : feed { p.resetCsi with state := .csiEntry } d = feed (p.csiParser none) d := by
      rw [feed_csiParam_digit (p := p.csiParser none) rfl hdigit, feed_csiEntry rfl, onCsiEntry,
        if_neg (by rintro rfl; cases hdigit), if_neg (by rintro rfl; cases hdigit), if_pos hdigit]
      show (_, _) = (_, _)
      rw [← addDigit_zero hdigit]
      rfl
    rw [List.cons_append, feedAll, feedAll, hentry]

theorem exists_paramsText {ns : List ℕ} (hne : ns ≠ []) :
    ∃ n rest, paramsText ns = Nat.toDigits 10 n ++ rest := by
  match ns with
  | [] => exact absurd rfl hne
  | [n] => exact ⟨n, [], (List.append_nil _).symm⟩
  | n :: m :: ms => exact ⟨n, ';' :: paramsText (m :: ms), rfl⟩

/-- From the ground state a sequence is dispatched on its own numbers. -/
theorem feedAll_csiText {p : VtParser} (hp : p.state = .ground) {priv : Option Char}
    (hpriv : priv = none ∨ priv = some '<') {ns : List ℕ} (hne : ns ≠ [])
    (hns : ∀ n ∈ ns, n ≤ u16Max) {final : Char} (hfinal : isFinal final = true) :
    p.feedAll (csiText priv ns final) =
      (ns.foldl pushParam (p.csiParser priv)).dispatchCsi final := by
  have hparams := feedAll_params (p := p.csiParser priv) rfl rfl hne hns hfinal
  have hopen := feed_escape_bracket (p := { p with state := .escape }) rfl
  rw [csiText, feedAll_cons_silent (feed_ground_escape hp), feedAll_cons_silent hopen, ← hparams]
  obtain rfl | rfl := hpriv
  · obtain ⟨n, rest, htext⟩ := exists_paramsText hne
    rw [htext, Option.toList_none, List.nil_append, List.append_assoc]
    exact feedAll_csiEntry
  · have hprivate : feed { p.resetCsi with state := .csiEntry } '<' =
        (p.csiParser (some '<'), []) := feed_csiEntry rfl
    exact feedAll_cons_silent hprivate _

/-- A sequence without numbers has one empty number. -/
theorem feedAll_csiText_nil {p : VtParser} (hp : p.state = .ground) {final : Char}
    (hfinal : isFinal final = true) (hM : final ≠ 'M') :
    p.feedAll (csiText none [] final) =
      (pushParam { p.resetCsi with state := .csiEntry } 0).dispatchCsi final := by
  have hend : feed { p.resetCsi with state := .csiEntry } final =
      (pushParam { p.resetCsi with state := .csiEntry } 0).dispatchCsi final := by
    rw [feed_csiEntry rfl, onCsiEntry, if_neg (isFinal_ne hfinal (by decide)),
      if_neg (isFinal_ne hfinal (by decide)), if_neg (by simp [not_isDigit_of_isFinal hfinal]),
      if_neg (isFinal_ne hfinal (by decide)), if_neg hM, if_pos hfinal]
    rfl
  rw [csiText, feedAll_cons_silent (feed_ground_escape hp),
    feedAll_cons_silent (feed_escape_bracket (p := { p with state := .escape }) rfl)]
  exact (feedAll_singleton _ _).trans hend

end VtParser
end Winsmux.Input
