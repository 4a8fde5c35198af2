import Winsmux.Control.Filter

/-!
# The filter shows what the server wrote

A stream of responses and notifications. The text of a body may be anything but a line that
ends its own response; then each line is shown as it came, a frame as what it holds, and of
any other text in the body of an environment no line passes.
-/
namespace Winsmux.Control
open Json

theorem forall_of_all {t : Text} (h : (t.all (0x20 ≤ ·)) = true) : ∀ d ∈ t, 0x20 ≤ d :=
  fun d hd => of_decide_eq_true (List.all_eq_true.1 h d hd)

theorem escapeByte_ge (c : UInt8) : ∀ d ∈ escapeByte c, 0x20 ≤ d := by
  have hall : ∀ n : Fin 256, (escapeByte (UInt8.ofNat n)).all (0x20 ≤ ·) = true := by decide +kernel
  have hc := hall ⟨c.toNat, c.toNat_lt⟩
  rw [UInt8.ofNat_toNat] at hc
  exact forall_of_all hc

theorem le_of_mem_quote {s : Text} {d : UInt8} (h : d ∈ quote s) : 0x20 ≤ d := by
  rw [quote, List.mem_cons, List.mem_append, List.mem_singleton] at h
  obtain rfl | h | rfl := h
  · decide
  · obtain ⟨c, -, hd⟩ := List.mem_flatMap.1 h
    exact escapeByte_ge c d hd
  · decide

/-- The text of a response: two entries between braces. -/
theorem toJson_eq (r : SafeEnvironmentResponse) : ∃ front body : Text,
    (∀ d ∈ front, 0x20 ≤ d) ∧ r.toJson = front ++ quote body ++ [0x7d] := by
  cases r with
  | ok output =>
    refine ⟨0x7b :: (quote (utf8 "status") ++ 0x3a :: (quote (utf8 "ok") ++ 0x2c ::
      (quote (utf8 "payload") ++ [0x3a]))), output, forall_of_all (by decide), ?_⟩
    simp [SafeEnvironmentResponse.toJson, Value.toVec, entriesToVec]
  | error message =>
    refine ⟨0x7b :: (quote (utf8 "status") ++ 0x3a :: (quote (utf8 "error") ++ 0x2c ::
      (quote (utf8 "payload") ++ [0x3a]))), message, forall_of_all (by decide), ?_⟩
    simp [SafeEnvironmentResponse.toJson, Value.toVec, entriesToVec]

theorem noLineEnd_toJson (r : SafeEnvironmentResponse) : ¬ (0x0d ∈ r.toJson ∨ 0x0a ∈ r.toJson) := by
  obtain ⟨front, body, hfront, hr⟩ := toJson_eq r
  have hge : ∀ d ∈ r.toJson, 0x20 ≤ d := by
    intro d hd
    rw [hr, List.mem_append, List.mem_append, List.mem_singleton] at hd
    obtain (hd | hd) | rfl := hd
    · exact hfront d hd
    · exact le_of_mem_quote hd
    · decide
  intro h
  obtain h | h := h
  · exact absurd (hge _ h) (by decide)
  · exact absurd (hge _ h) (by decide)

theorem decode_frame {fromStr : Text → Option SafeEnvironmentResponse} {r : SafeEnvironmentResponse}
    (h : fromStr r.toJson = some r) :
    decodeSafeEnvironmentResponse fromStr (encodeSafeEnvironmentFrame r) = some r := by
  have hopen : (encodeSafeEnvironmentFrame r).dropPrefix? responsePrefix = some (r.toJson ++ [0x0a]) := by
    rw [encodeSafeEnvironmentFrame, List.append_assoc]
    exact List.dropPrefix?_append_of_beq _ (beq_self_eq_true _)
  have hsuffix : ((r.toJson ++ [0x0a]).dropSuffix? [0x0d, 0x0a]).or ((r.toJson ++ [0x0a]).dropSuffix? [0x0a]) =
      some r.toJson := by
    have hcr : (r.toJson ++ [0x0a]).dropSuffix? [0x0d, 0x0a] = none := by
      rw [Option.eq_none_iff_forall_ne_some]
      intro init hinit
      obtain ⟨s, hs, hbeq⟩ := List.dropSuffix?_eq_some_iff.1 hinit
      obtain rfl := eq_of_beq hbeq
      have hinit : r.toJson = init ++ [0x0d] := by
        refine @List.append_cancel_right _ _ [0x0a] _ ?_
        rw [hs]
        simp
      exact noLineEnd_toJson r (.inl (by rw [hinit]; simp))
    have hlf : (r.toJson ++ [0x0a]).dropSuffix? [0x0a] = some r.toJson :=
      List.dropSuffix?_eq_some_iff.2 ⟨[0x0a], rfl, beq_self_eq_true _⟩
    rw [hcr, hlf]
    rfl
  simp only [decodeSafeEnvironmentResponse, hopen, hsuffix, Option.bind_eq_bind, Option.bind_some,
    if_neg (noLineEnd_toJson r), h]

theorem trimLineEnd_append {s : Text} (t : Text) {c : UInt8} (hlast : s.getLast? = some c)
    (hc : c ≠ 0x0d ∧ c ≠ 0x0a) : trimLineEnd (s ++ t) = s ++ trimLineEnd t := by
  obtain ⟨init, rfl⟩ := List.getLast?_eq_some_iff.1 hlast
  simp only [trimLineEnd, List.reverse_append, List.dropWhile_append]
  split
  · next h =>
    rw [List.isEmpty_iff] at h
    simp [h, hc]
  · simp

/-- A line with the prefix of a frame begins with a byte that no marker begins with. -/
theorem controlBlockMetadata_prefixed (t marker : Text) (h : marker.head? ≠ some 0x00) :
    controlBlockMetadata (responsePrefix ++ t) marker = none := by
  have htrim := trimLineEnd_append t (s := responsePrefix) (c := 0x20) (by decide) (by decide)
  have hname : utf8 "winsmux-safe-environment-response-v1 " =
      utf8 "winsmux-safe-environment-response-v1" ++ [0x20] := by decide
  have hfields : splitAsciiWhitespace (responsePrefix ++ trimLineEnd t) =
      (0x00 :: utf8 "winsmux-safe-environment-response-v1") :: splitAsciiWhitespace (trimLineEnd t) := by
    rw [responsePrefix, hname]
    have hall : (0x00 :: utf8 "winsmux-safe-environment-response-v1").all (!asciiWhitespace ·) = true := by
      decide
    simpa using splitAsciiWhitespace_append (t := trimLineEnd t) hall (List.cons_ne_nil _ _)
  rw [controlBlockMetadata, htrim, hfields]
  split
  · next he =>
    obtain ⟨rfl, -⟩ := List.cons.inj he
    refine if_neg fun hmarker => h ?_
    rw [← hmarker.1]
    rfl
  · rfl

theorem blockEnd_prefixed (t : Text) : blockEnd (responsePrefix ++ t) = none := by
  rw [blockEnd, controlBlockMetadata_prefixed t _ (by decide), controlBlockMetadata_prefixed t _ (by decide)]
  rfl

theorem blockEnd_frame (r : SafeEnvironmentResponse) : blockEnd (encodeSafeEnvironmentFrame r) = none := by
  rw [encodeSafeEnvironmentFrame, List.append_assoc]
  exact blockEnd_prefixed _

theorem not_isNotification_frame (r : SafeEnvironmentResponse) :
    isNotification (encodeSafeEnvironmentFrame r) = false := rfl

/-- A line from the server that is part of no response. -/
structure Notification (line : Text) : Prop where
  percent : isNotification line = true
  begins : controlBlockMetadata line (utf8 "%begin") = none
  ends : blockEnd line = none

inductive Body where
  /-- Any lines. -/
  | text (lines : List Text)
  /-- One frame among notifications. -/
  | frame (before : List Text) (r : SafeEnvironmentResponse) (after : List Text)

namespace Body

def lines : Body → List Text
  | text lines => lines
  | frame before r after => before ++ r.encoded :: after

def notifications : Body → List Text
  | text _ => []
  | frame before _ after => before ++ after

def isFrame : Body → Bool
  | text _ => false
  | frame .. => true

end Body

/-- A response: its first and last line carry the same numbers. -/
structure Block where
  timestamp : ℤ
  commandNumber : ℕ
  flags : ℕ
  failed : Bool
  body : Body
  timestamp_ge : -(2 ^ 63 : ℤ) ≤ timestamp
  timestamp_lt : timestamp < 2 ^ 63
  commandNumber_lt : commandNumber < 2 ^ 64
  flags_lt : flags < 2 ^ 64
  /-- Only an environment is put in a frame. -/
  framed : body.isFrame = true → isSafeEnvironment flags = true
  notifies : ∀ line ∈ body.notifications, Notification line

namespace Block

def first (b : Block) : Text := formatBegin b.timestamp b.commandNumber b.flags ++ [0x0a]

def last (b : Block) : Text :=
  (if b.failed then formatError else formatEnd) b.timestamp b.commandNumber b.flags ++ [0x0a]

def lines (b : Block) : List Text := b.first :: (b.body.lines ++ [b.last])

/-- No line of a text ends the response it is in; where the response should hold an
environment, a line that ends another one is no text. -/
def Contained (b : Block) : Prop :=
  match b.body with
  | .text lines => ∀ line ∈ lines, ∀ n ∈ blockEnd line,
      n ≠ b.commandNumber ∧ (isSafeEnvironment b.flags = true → isNotification line = true)
  | .frame .. => True

end Block

inductive Item where
  | notification (line : Text) (h : Notification line)
  | block (b : Block)

def Item.lines : Item → List Text
  | notification line _ => [line]
  | block b => b.lines

def Item.Contained : Item → Prop
  | notification .. => True
  | block b => b.Contained

section Faithful
variable (fromStr : Text → Option SafeEnvironmentResponse)

/-- What the lines of an environment's body are shown as while the notifications `off` are put
off: a notification as it came or not at all, any other line not at all, as the one error, or as
what it holds as a frame behind the notifications put off. -/
inductive Withheld : List Text → List Text → List Text → Prop
  | nil (off : List Text) : Withheld off [] []
  | passes {off lines shown : List Text} {line : Text} (hpercent : isNotification line = true)
      (hrest : Withheld [] lines shown) : Withheld off (line :: lines) (line :: shown)
  | putOff {off lines shown : List Text} {line : Text} (hpercent : isNotification line = true)
      (hrest : Withheld (off ++ [line]) lines shown) : Withheld off (line :: lines) ([] :: shown)
  | hidden {off lines shown : List Text} {line : Text} (hpercent : isNotification line = false)
      (hrest : Withheld [] lines shown) : Withheld off (line :: lines) ([] :: shown)
  | refused {off lines shown : List Text} {line : Text} (hpercent : isNotification line = false)
      (hrest : Withheld [] lines shown) : Withheld off (line :: lines) (errorLine :: shown)
  | frame {off lines shown : List Text} {line : Text} (hpercent : isNotification line = false)
      {r : SafeEnvironmentResponse} (hdecode : decodeSafeEnvironmentResponse fromStr line = some r)
      (hrest : Withheld [] lines shown) : Withheld off (line :: lines) ((off.flatten ++ r.shown) :: shown)

/-- What a body should be shown as. -/
def Body.Shown (safe : Bool) (shown : List Text) : Body → Prop
  | .text lines => if safe then Withheld fromStr [] lines shown else shown = lines
  | .frame before r after => shown.flatten = before.flatten ++ r.shown ++ after.flatten

/-- The last line may come after the error where an environment was missing. -/
def Item.Shown (item : Item) (shown : List Text) : Prop :=
  match item with
  | notification line _ => shown = [line]
  | block b => ∃ body last, shown = b.first :: (body ++ [last]) ∧
      b.body.Shown fromStr (isSafeEnvironment b.flags) body ∧
      (last = b.last ∨
        isSafeEnvironment b.flags = true ∧ b.body.isFrame = false ∧ last = errorLine ++ b.last)

/-- The filter shows a stream as it should. -/
def Faithful (items : List Item) : Prop :=
  ∃ shown, (filterLines fromStr .default (items.flatMap Item.lines)).1 = shown.flatten ∧
    List.Forall₂ (Item.Shown fromStr) items shown

end Faithful

section Runs
variable {fromStr : Text → Option SafeEnvironmentResponse} {s s' s'' : ResponseFilter}

theorem filterLines_append (s : ResponseFilter) (lines more : List Text) :
    filterLines fromStr s (lines ++ more) =
      ((filterLines fromStr s lines).1 ++ (filterLines fromStr (filterLines fromStr s lines).2 more).1,
        (filterLines fromStr (filterLines fromStr s lines).2 more).2) := by
  induction lines generalizing s with
  | nil => rfl
  | cons line lines ih => simp [filterLines, ih]

theorem filterLines_cons (s : ResponseFilter) (line : Text) (lines : List Text) :
    filterLines fromStr s (line :: lines) =
      ((filterServerLine fromStr line s).1 :: (filterLines fromStr (filterServerLine fromStr line s).2 lines).1,
        (filterLines fromStr (filterServerLine fromStr line s).2 lines).2) := rfl

theorem metadata_first (b : Block) :
    controlBlockMetadata b.first (utf8 "%begin") = some (b.commandNumber, b.flags) :=
  controlBlockMetadata_formatLine (by decide) (by decide) b.timestamp_ge b.timestamp_lt
    b.commandNumber_lt b.flags_lt

/-- A line with one marker is no line with another. -/
theorem controlBlockMetadata_ne {marker other : Text} {timestamp : ℤ} {number flags : ℕ}
    (hmarker : marker.all (!asciiWhitespace ·) = true) (hne : marker ≠ []) (hother : marker ≠ other) :
    controlBlockMetadata (formatLine marker timestamp number flags ++ [0x0a]) other = none := by
  obtain ⟨c, hc⟩ := List.getLast?_isSome.2 (decimal_ne_nil flags) |> Option.isSome_iff_exists.1
  have hdigit : isDigit c = true := isDigit_of_mem_decimal (List.mem_of_getLast? hc)
  have hlast : (formatLine marker timestamp number flags).getLast? = some c := by
    simp [formatLine, List.getLast?_append, List.getLast?_cons, hc]
  have htrim := trimLineEnd_newline hlast ⟨by rintro rfl; contradiction, by rintro rfl; contradiction⟩
  rw [controlBlockMetadata, htrim, formatLine, splitAsciiWhitespace_append hmarker hne]
  split
  · next he =>
    obtain ⟨rfl, -⟩ := List.cons.inj he
    exact if_neg fun h => hother h.1
  · rfl

theorem blockEnd_last (b : Block) : blockEnd b.last = some b.commandNumber := by
  have hread (marker : Text) (hmarker : marker.all (!asciiWhitespace ·) = true) (hne : marker ≠ []) :=
    controlBlockMetadata_formatLine hmarker hne b.timestamp_ge b.timestamp_lt b.commandNumber_lt b.flags_lt
  rw [blockEnd, Block.last]
  split
  · rw [show formatError = formatLine (utf8 "%error") from rfl,
      controlBlockMetadata_ne (by decide) (by decide) (by decide), hread _ (by decide) (by decide)]
    rfl
  · rw [show formatEnd = formatLine (utf8 "%end") from rfl, hread _ (by decide) (by decide)]
    rfl

/-- Text in a response that holds no environment passes. -/
theorem filterLines_text {n : ℕ} {lines : List Text} (h : ∀ line ∈ lines, blockEnd line ≠ some n) :
    filterLines fromStr ⟨some ⟨n, false, false⟩, []⟩ lines = (lines, ⟨some ⟨n, false, false⟩, []⟩) := by
  induction lines with
  | nil => rfl
  | cons line lines ih =>
    obtain ⟨hline, hlines⟩ := List.forall_mem_cons.1 h
    have hone : filterServerLine fromStr line ⟨some ⟨n, false, false⟩, []⟩ =
        (line, ⟨some ⟨n, false, false⟩, []⟩) := by
      simp only [filterServerLine]
      split
      · next m hm =>
        have hne : n ≠ m := fun he => hline (he ▸ hm)
        simp [hne]
      · rfl
    rw [filterLines_cons, hone, ih hlines]

/-- What is withheld of the end of a body, where it is of the whole. -/
theorem Withheld.drop {front lines shown rest : List Text} (hlen : front.length = shown.length) {off : List Text}
    (h : Withheld fromStr off (front ++ lines) (shown ++ rest)) : ∃ off', Withheld fromStr off' lines rest := by
  induction front generalizing shown off with
  | nil =>
    obtain rfl := List.eq_nil_of_length_eq_zero hlen.symm
    exact ⟨off, h⟩
  | cons line front ih =>
    cases shown with
    | nil => contradiction
    | cons s shown =>
      have hfront : front.length = shown.length := by simpa using hlen
      cases h with
      | passes _ hrest => exact ih hfront hrest
      | putOff _ hrest => exact ih hfront hrest
      | hidden _ hrest => exact ih hfront hrest
      | refused _ hrest => exact ih hfront hrest
      | frame _ _ hrest => exact ih hfront hrest

/-- Notifications before the frame are put off. -/
theorem filterLines_before {n : ℕ} {lines : List Text} (h : ∀ line ∈ lines, Notification line) (deferred : Text) :
    filterLines fromStr ⟨some ⟨n, true, false⟩, deferred⟩ lines =
      (lines.map fun _ => [], ⟨some ⟨n, true, false⟩, deferred ++ lines.flatten⟩) := by
  induction lines generalizing deferred with
  | nil => simp [filterLines]
  | cons line lines ih =>
    obtain ⟨hline, hlines⟩ := List.forall_mem_cons.1 h
    have hone : filterServerLine fromStr line ⟨some ⟨n, true, false⟩, deferred⟩ =
        ([], ⟨some ⟨n, true, false⟩, deferred ++ line⟩) := by
      simp [filterServerLine, hline.ends, hline.percent]
    rw [filterLines_cons, hone, ih hlines]
    simp

/-- Notifications after the frame pass. -/
theorem filterLines_after {n : ℕ} {lines : List Text} (h : ∀ line ∈ lines, Notification line) :
    filterLines fromStr ⟨some ⟨n, true, true⟩, []⟩ lines = (lines, ⟨some ⟨n, true, true⟩, []⟩) := by
  induction lines with
  | nil => rfl
  | cons line lines ih =>
    obtain ⟨hline, hlines⟩ := List.forall_mem_cons.1 h
    have hone : filterServerLine fromStr line ⟨some ⟨n, true, true⟩, []⟩ =
        (line, ⟨some ⟨n, true, true⟩, []⟩) := by
      simp [filterServerLine, hline.ends, hline.percent]
    rw [filterLines_cons, hone, ih hlines]

theorem filterServerLine_frame {n : ℕ} {r : SafeEnvironmentResponse} (h : fromStr r.toJson = some r)
    (deferred : Text) :
    filterServerLine fromStr (encodeSafeEnvironmentFrame r) ⟨some ⟨n, true, false⟩, deferred⟩ =
      (deferred ++ r.shown, ⟨some ⟨n, true, true⟩, []⟩) := by
  simp [filterServerLine, blockEnd_frame, not_isNotification_frame, filterPayload, decode_frame h]

/-- A line that ends another response passes. -/
theorem filterServerLine_otherEnd {n m : ℕ} {line : Text} (hm : blockEnd line = some m) (hne : m ≠ n)
    (safe handled : Bool) (deferred : Text) :
    filterServerLine fromStr line ⟨some ⟨n, safe, handled⟩, deferred⟩ =
      (line, ⟨some ⟨n, safe, handled⟩, []⟩) := by
  simp [filterServerLine, hm, hne.symm]

/-- No line of an environment's body passes but notifications. -/
theorem filterLines_withheld {n : ℕ} {lines : List Text}
    (h : ∀ line ∈ lines, ∀ m ∈ blockEnd line, m ≠ n ∧ isNotification line = true)
    {handled : Bool} {off : List Text} (hoff : handled = true → off = []) :
    Withheld fromStr off lines (filterLines fromStr ⟨some ⟨n, true, handled⟩, off.flatten⟩ lines).1 ∧
      ∃ handled' deferred', (filterLines fromStr ⟨some ⟨n, true, handled⟩, off.flatten⟩ lines).2 =
        ⟨some ⟨n, true, handled'⟩, deferred'⟩ := by
  induction lines generalizing handled off with
  | nil => exact ⟨.nil off, handled, off.flatten, rfl⟩
  | cons line lines ih =>
    obtain ⟨hline, hlines⟩ := List.forall_mem_cons.1 h
    rw [filterLines_cons]
    cases hm : blockEnd line with
    | some m =>
      obtain ⟨hne, hpercent⟩ := hline m hm
      obtain ⟨hrest, hend⟩ := @ih hlines handled [] fun _ => rfl
      rw [filterServerLine_otherEnd hm hne]
      exact ⟨.passes hpercent hrest, hend⟩
    | none =>
      cases handled with
      | true =>
        obtain rfl := hoff rfl
        obtain ⟨hrest, hend⟩ := @ih hlines true [] fun _ => rfl
        cases hpercent : isNotification line with
        | true =>
          have hone : filterServerLine fromStr line ⟨some ⟨n, true, true⟩, [].flatten⟩ =
              (line, ⟨some ⟨n, true, true⟩, []⟩) := by simp [filterServerLine, hm, hpercent]
          rw [hone]
          exact ⟨.passes hpercent hrest, hend⟩
        | false =>
          have hone : filterServerLine fromStr line ⟨some ⟨n, true, true⟩, [].flatten⟩ =
              ([], ⟨some ⟨n, true, true⟩, []⟩) := by simp [filterServerLine, hm, hpercent]
          rw [hone]
          exact ⟨.hidden hpercent hrest, hend⟩
      | false =>
        cases hpercent : isNotification line with
        | true =>
          have hone : filterServerLine fromStr line ⟨some ⟨n, true, false⟩, off.flatten⟩ =
              ([], ⟨some ⟨n, true, false⟩, (off ++ [line]).flatten⟩) := by
            simp [filterServerLine, hm, hpercent]
          obtain ⟨hrest, hend⟩ := @ih hlines false (off ++ [line]) fun h => by contradiction
          rw [hone]
          exact ⟨.putOff hpercent hrest, hend⟩
        | false =>
          have hone : filterServerLine fromStr line ⟨some ⟨n, true, false⟩, off.flatten⟩ =
              ((decodeSafeEnvironmentResponse fromStr line).elim errorLine fun r => off.flatten ++ r.shown,
                ⟨some ⟨n, true, true⟩, []⟩) := by
            cases hdecode : decodeSafeEnvironmentResponse fromStr line <;>
              simp [filterServerLine, hm, hpercent, filterPayload, hdecode]
          obtain ⟨hrest, hend⟩ := @ih hlines true [] fun _ => rfl
          rw [hone]
          refine ⟨?_, hend⟩
          cases hdecode : decodeSafeEnvironmentResponse fromStr line with
          | none => exact .refused hpercent hrest
          | some r => exact .frame hpercent hdecode hrest

theorem filterServerLine_first (b : Block) :
    filterServerLine fromStr b.first .default =
      (b.first, ⟨some ⟨b.commandNumber, isSafeEnvironment b.flags, false⟩, []⟩) := by
  simp [filterServerLine, ResponseFilter.default, metadata_first]

/-- The last line ends the response, with the error before it where nothing was shown. -/
theorem filterServerLine_last (b : Block) (handled : Bool) (deferred : Text) :
    filterServerLine fromStr b.last ⟨some ⟨b.commandNumber, isSafeEnvironment b.flags, handled⟩, deferred⟩ =
      (if isSafeEnvironment b.flags = true ∧ handled = false then errorLine ++ b.last else b.last, .default) := by
  simp only [filterServerLine, blockEnd_last]
  cases isSafeEnvironment b.flags <;> cases handled <;> simp [ResponseFilter.default]

/-- A response between its two lines, given what its body is shown as. -/
theorem shown_of_body {b : Block} {body : List Text} {handled : Bool} {deferred : Text}
    (hbody : filterLines fromStr ⟨some ⟨b.commandNumber, isSafeEnvironment b.flags, false⟩, []⟩ b.body.lines =
      (body, ⟨some ⟨b.commandNumber, isSafeEnvironment b.flags, handled⟩, deferred⟩))
    (hshown : b.body.Shown fromStr (isSafeEnvironment b.flags) body)
    (hlast : isSafeEnvironment b.flags = true → handled = false → b.body.isFrame = false) :
    Item.Shown fromStr (.block b) (filterLines fromStr .default b.lines).1 ∧
      (filterLines fromStr .default b.lines).2 = .default := by
  have hlines : filterLines fromStr .default b.lines =
      (b.first :: (body ++ [if isSafeEnvironment b.flags = true ∧ handled = false then errorLine ++ b.last
        else b.last]), .default) := by
    rw [Block.lines, filterLines_cons, filterServerLine_first, filterLines_append, hbody]
    simp only [filterLines, filterServerLine_last]
  rw [hlines]
  refine ⟨⟨body, _, rfl, hshown, ?_⟩, rfl⟩
  split
  · next h => exact .inr ⟨h.1, hlast h.1 h.2, rfl⟩
  · exact .inl rfl

theorem shown_block {b : Block} (hread : ∀ r : SafeEnvironmentResponse, fromStr r.toJson = some r)
    (h : b.Contained) :
    Item.Shown fromStr (.block b) (filterLines fromStr .default b.lines).1 ∧
      (filterLines fromStr .default b.lines).2 = .default := by
  have hframed := b.framed
  have hnotifies := b.notifies
  cases hbody : b.body with
  | text lines =>
    rw [Block.Contained, hbody] at h
    cases hsafe : isSafeEnvironment b.flags with
    | false =>
      have htext := @filterLines_text fromStr b.commandNumber lines
        fun line hline he => (h line hline _ he).1 rfl
      refine @shown_of_body _ _ lines false [] ?_ ?_ fun hs => ?_
      · rw [hsafe, hbody]
        exact htext
      · rw [hsafe, hbody]
        rfl
      · rw [hsafe] at hs
        contradiction
    | true =>
      obtain ⟨hshown, handled, deferred, hstate⟩ := @filterLines_withheld fromStr b.commandNumber lines
        (fun line hline m hm => ⟨(h line hline m hm).1, (h line hline m hm).2 hsafe⟩) false [] fun _ => rfl
      refine @shown_of_body _ _ ((filterLines fromStr ⟨some ⟨b.commandNumber, true, false⟩, []⟩ lines).1) handled
        deferred ?_ ?_ fun _ _ => ?_
      · rw [hsafe, hbody, Prod.ext_iff]
        exact ⟨rfl, hstate⟩
      · rw [hsafe, hbody]
        exact hshown
      · rw [hbody]
        rfl
  | frame before r after =>
    rw [hbody] at hframed hnotifies
    have hsafe := hframed rfl
    have hbefore : ∀ line ∈ before, Notification line := fun line hl => hnotifies line (List.mem_append_left _ hl)
    have hafter : ∀ line ∈ after, Notification line := fun line hl => hnotifies line (List.mem_append_right _ hl)
    refine @shown_of_body _ _ (before.map (fun _ => []) ++ ((before.flatten ++ r.shown) :: after)) true [] ?_ ?_
      fun _ hh => ?_
    · rw [hsafe, hbody, Body.lines, r.encoded_eq, filterLines_append, filterLines_before hbefore,
        filterLines_cons, filterServerLine_frame (hread r), filterLines_after hafter]
      rfl
    · rw [hsafe, hbody, Body.Shown]
      simp
    · contradiction

theorem shown_notification {line : Text} (h : Notification line) :
    filterLines fromStr .default [line] = ([line], .default) := by
  simp [filterLines, filterServerLine, ResponseFilter.default, h.begins]

theorem faithful_of_contained (hread : ∀ r : SafeEnvironmentResponse, fromStr r.toJson = some r)
    {items : List Item} (h : ∀ item ∈ items, item.Contained) :
    Faithful fromStr items ∧ (filterLines fromStr .default (items.flatMap Item.lines)).2 = .default := by
  induction items with
  | nil => exact ⟨⟨[], rfl, .nil⟩, rfl⟩
  | cons item items ih =>
    obtain ⟨hitem, hitems⟩ := List.forall_mem_cons.1 h
    have hone : Item.Shown fromStr item (filterLines fromStr .default item.lines).1 ∧
        (filterLines fromStr .default item.lines).2 = .default := by
      cases item with
      | notification line hline =>
        rw [Item.lines, shown_notification hline]
        exact ⟨rfl, rfl⟩
      | block b => exact shown_block hread hitem
    obtain ⟨⟨shown, heq, hshown⟩, hend⟩ := ih hitems
    rw [Faithful, List.flatMap_cons, filterLines_append, hone.2]
    refine ⟨⟨(filterLines fromStr .default item.lines).1 :: shown, ?_, .cons hone.1 hshown⟩, hend⟩
    rw [List.flatten_cons, heq]

theorem not_decoded {line : Text} {n : ℕ} (h : blockEnd line = some n) :
    decodeSafeEnvironmentResponse fromStr line = none := by
  have hopen : line.dropPrefix? responsePrefix = none := by
    rw [Option.eq_none_iff_forall_ne_some]
    intro t ht
    obtain ⟨p, rfl, hp⟩ := List.dropPrefix?_eq_some_iff.1 ht
    obtain rfl := eq_of_beq hp
    rw [blockEnd_prefixed] at h
    contradiction
  rw [decodeSafeEnvironmentResponse, hopen]
  rfl

theorem Withheld.length_eq {off lines shown : List Text} (h : Withheld fromStr off lines shown) :
    lines.length = shown.length := by
  induction h with
  | nil => rfl
  | passes _ _ ih | putOff _ _ ih | hidden _ _ ih | refused _ _ ih | frame _ _ _ ih =>
    rw [List.length_cons, List.length_cons, ih]

theorem not_withheld {line : Text} (hpercent : isNotification line = false) (hne : line ≠ [])
    (herror : line ≠ errorLine) (hdecode : decodeSafeEnvironmentResponse fromStr line = none)
    {off lines shown : List Text} : ¬ Withheld fromStr off (line :: lines) (line :: shown) := by
  intro h
  have hshown : ∃ s rest, line :: shown = s :: rest ∧ (isNotification line = true ∨ s = [] ∨ s = errorLine ∨
      ∃ r, decodeSafeEnvironmentResponse fromStr line = some r) := by
    generalize line :: shown = all at h
    cases h with
    | passes hp => exact ⟨_, _, rfl, .inl hp⟩
    | putOff hp => exact ⟨_, _, rfl, .inl hp⟩
    | hidden => exact ⟨_, _, rfl, .inr (.inl rfl)⟩
    | refused => exact ⟨_, _, rfl, .inr (.inr (.inl rfl))⟩
    | @frame _ _ _ _ _ r hr => exact ⟨_, _, rfl, .inr (.inr (.inr ⟨r, hr⟩))⟩
  obtain ⟨s, rest, he, hs⟩ := hshown
  obtain ⟨rfl, rfl⟩ := List.cons.inj he
  rcases hs with h | h | h | ⟨r, h⟩
  · rw [hpercent] at h
    contradiction
  · exact hne h
  · exact herror h
  · rw [hdecode] at h
    contradiction

theorem decode_newline : decodeSafeEnvironmentResponse fromStr [0x0a] = none := rfl

namespace Block

/-- The response with another body of text. -/
def withText (b : Block) (lines : List Text) : Block :=
  { b with
    body := .text lines
    framed := fun h => by contradiction
    notifies := fun line h => by contradiction }

end Block

/-- What a body of text is shown as, where the stream is shown as it should be. -/
theorem body_of_faithful {b : Block} {lines : List Text} (h : Faithful fromStr [.block (b.withText lines)]) :
    ∃ body last, (filterLines fromStr .default (b.withText lines).lines).1 = b.first :: (body ++ [last]) ∧
      (Body.text lines).Shown fromStr (isSafeEnvironment b.flags) body := by
  obtain ⟨shown, heq, hshown⟩ := h
  obtain ⟨group, rest, hgroup, hrest, rfl⟩ := List.forall₂_cons_left_iff.1 hshown
  obtain rfl := List.forall₂_nil_left_iff.1 hrest
  obtain ⟨body, last, hg, hbody, -⟩ := hgroup
  refine ⟨body, last, ?_, hbody⟩
  rw [List.flatMap_singleton, List.flatten_singleton] at heq
  exact heq.trans hg

section Ends
variable {b : Block} {front fronts rest : List Text} {line : Text} {n : ℕ}

/-- What a body is shown as in a stream that is shown as it should be: its front, then the rest. -/
theorem shown_of_faithful
    (hfront : filterLines fromStr ⟨some ⟨b.commandNumber, isSafeEnvironment b.flags, false⟩, []⟩ front =
      (fronts, s))
    (h : Faithful fromStr [.block (b.withText (front ++ rest))]) :
    (Body.text (front ++ rest)).Shown fromStr (isSafeEnvironment b.flags)
      (fronts ++ (filterLines fromStr s rest).1) := by
  have hfirst : filterServerLine fromStr b.first .default =
    (b.first, ⟨some ⟨b.commandNumber, isSafeEnvironment b.flags, false⟩, []⟩) := filterServerLine_first b
  obtain ⟨body, last, heq, hbody⟩ := body_of_faithful h
  have heq : (filterLines fromStr .default (b.first :: (front ++ rest ++ [b.last]))).1 =
    b.first :: (body ++ [last]) := heq
  rw [filterLines_cons, hfirst, filterLines_append, filterLines_append, hfront] at heq
  have htail : (fronts ++ (filterLines fromStr s rest).1) ++
      (filterLines fromStr (filterLines fromStr s rest).2 [b.last]).1 = body ++ [last] :=
    (List.cons.inj heq).2
  obtain ⟨hsame, -⟩ := List.append_inj' htail rfl
  rw [hsame]
  exact hbody

theorem filterServerLine_ownEnd (hline : blockEnd line = some n) (safe handled : Bool) (deferred : Text) :
    (filterServerLine fromStr line ⟨some ⟨n, safe, handled⟩, deferred⟩).2 = .default := by
  simp [filterServerLine, hline, ResponseFilter.default]

/-- Behind the line that ends a response of text, the body opens one that should hold an
environment. -/
theorem not_faithful_of_text_end (hsafe : isSafeEnvironment b.flags = false)
    (hfront : ∀ l ∈ front, blockEnd l ≠ some b.commandNumber) (hline : blockEnd line = some b.commandNumber) :
    ¬ Faithful fromStr [.block (b.withText (front ++ line :: [formatBegin 0 0 2 ++ [0x0a], [0x0a]]))] := by
  intro h
  have hstate : filterLines fromStr ⟨some ⟨b.commandNumber, isSafeEnvironment b.flags, false⟩, []⟩ front =
      (front, ⟨some ⟨b.commandNumber, false, false⟩, []⟩) := by
    rw [hsafe]
    exact filterLines_text hfront
  have hbody := shown_of_faithful hstate h
  rw [hsafe] at hbody
  have hbody : front ++ (filterLines fromStr ⟨some ⟨b.commandNumber, false, false⟩, []⟩
      [line, formatBegin 0 0 2 ++ [0x0a], [0x0a]]).1 = front ++ [line, formatBegin 0 0 2 ++ [0x0a], [0x0a]] := hbody
  have hbegin : filterServerLine fromStr (formatBegin 0 0 2 ++ [0x0a]) .default =
      (formatBegin 0 0 2 ++ [0x0a], ⟨some ⟨0, true, false⟩, []⟩) := by
    have hmeta : controlBlockMetadata (formatBegin 0 0 2 ++ [0x0a]) (utf8 "%begin") = some (0, 2) :=
      controlBlockMetadata_formatLine (by decide) (by decide) (by decide) (by decide) (by decide) (by decide)
    simp [filterServerLine, ResponseFilter.default, hmeta, isSafeEnvironment]
  have herror : filterServerLine fromStr [0x0a] ⟨some ⟨0, true, false⟩, []⟩ =
      (errorLine, ⟨some ⟨0, true, true⟩, []⟩) := by
    have hnone : blockEnd [0x0a] = none := by decide
    simp only [filterServerLine, hnone]
    rfl
  have hshown := List.append_cancel_left hbody
  rw [filterLines_cons, filterServerLine_ownEnd hline, filterLines_cons, hbegin, filterLines_cons, herror] at hshown
  have hnewline : errorLine = [0x0a] := (List.cons.inj (List.cons.inj (List.cons.inj hshown).2).2).1
  exact absurd hnewline (by decide)

/-- What is shown of a line in the body of an environment and of the rest behind it. -/
theorem exists_withheld (hsafe : isSafeEnvironment b.flags = true)
    (hfront : ∀ l ∈ front, ∀ m ∈ blockEnd l, m ≠ b.commandNumber ∧ isNotification l = true)
    (h : Faithful fromStr [.block (b.withText (front ++ rest))]) :
    ∃ handled deferred off,
      Withheld fromStr off rest (filterLines fromStr ⟨some ⟨b.commandNumber, true, handled⟩, deferred⟩ rest).1 := by
  obtain ⟨hshown, handled, deferred, hstate⟩ := @filterLines_withheld fromStr _ _ hfront false [] fun _ => rfl
  have hrun : filterLines fromStr ⟨some ⟨b.commandNumber, isSafeEnvironment b.flags, false⟩, []⟩ front =
      ((filterLines fromStr ⟨some ⟨b.commandNumber, true, false⟩, []⟩ front).1,
        ⟨some ⟨b.commandNumber, true, handled⟩, deferred⟩) := by
    rw [hsafe, Prod.ext_iff]
    exact ⟨rfl, hstate⟩
  have hbody := shown_of_faithful hrun h
  rw [hsafe] at hbody
  obtain ⟨off, hrest⟩ := Withheld.drop hshown.length_eq (show Withheld fromStr [] _ _ from hbody)
  exact ⟨handled, deferred, off, hrest⟩

/-- Behind the line that ends a response with an environment, the rest is shown as it comes. -/
theorem not_faithful_of_own_end (hsafe : isSafeEnvironment b.flags = true)
    (hfront : ∀ l ∈ front, ∀ m ∈ blockEnd l, m ≠ b.commandNumber ∧ isNotification l = true)
    (hline : blockEnd line = some b.commandNumber) :
    ¬ Faithful fromStr [.block (b.withText (front ++ line :: [[0x0a]]))] := by
  intro h
  obtain ⟨handled, deferred, off, hw⟩ := exists_withheld hsafe hfront h
  rw [filterLines_cons, filterServerLine_ownEnd hline] at hw
  have hw : Withheld fromStr off ([line] ++ [[0x0a]]) ([(filterServerLine fromStr line
      ⟨some ⟨b.commandNumber, true, handled⟩, deferred⟩).1] ++ [[0x0a]]) := hw
  obtain ⟨off, hw⟩ := Withheld.drop (List.length_singleton.trans List.length_singleton.symm) hw
  exact not_withheld rfl (by decide) (by decide) decode_newline hw

/-- A line that ends another response is shown, though it is no notification. -/
theorem not_faithful_of_other_end (hsafe : isSafeEnvironment b.flags = true)
    (hfront : ∀ l ∈ front, ∀ m ∈ blockEnd l, m ≠ b.commandNumber ∧ isNotification l = true)
    (hline : blockEnd line = some n) (hne : n ≠ b.commandNumber) (hpercent : isNotification line = false) :
    ¬ Faithful fromStr [.block (b.withText (front ++ line :: []))] := by
  intro h
  obtain ⟨handled, deferred, off, hw⟩ := exists_withheld hsafe hfront h
  rw [filterLines_cons, filterServerLine_otherEnd hline hne] at hw
  refine not_withheld hpercent ?_ ?_ (not_decoded hline) hw
  · rintro rfl
    contradiction
  · rintro rfl
    have hnone : blockEnd errorLine = none := by decide
    rw [hnone] at hline
    contradiction

/-- After a line that should not be in a body, the body can go on to break the stream. -/
theorem not_faithful_of_end (hfront : (b.withText front).Contained) (hline : ¬ (b.withText [line]).Contained) :
    ∃ rest, ¬ Faithful fromStr [.block (b.withText (front ++ line :: rest))] := by
  obtain ⟨m, hm, hbad⟩ : ∃ m, blockEnd line = some m ∧
      ¬ (m ≠ b.commandNumber ∧ (isSafeEnvironment b.flags = true → isNotification line = true)) := by
    by_contra hno
    refine hline fun l hl m hm => ?_
    obtain rfl := List.mem_singleton.1 hl
    by_contra hbad
    exact hno ⟨m, hm, hbad⟩
  have hfront : ∀ l ∈ front, ∀ n ∈ blockEnd l,
      n ≠ b.commandNumber ∧ (isSafeEnvironment b.flags = true → isNotification l = true) := hfront
  by_cases hown : m = b.commandNumber
  · subst hown
    cases hsafe : isSafeEnvironment b.flags with
    | false => exact ⟨_, not_faithful_of_text_end hsafe (fun l hl he => (hfront l hl _ he).1 rfl) hm⟩
    | true =>
      exact ⟨_, not_faithful_of_own_end hsafe
        (fun l hl k hk => ⟨(hfront l hl k hk).1, (hfront l hl k hk).2 hsafe⟩) hm⟩
  · have hsafe : isSafeEnvironment b.flags = true := by
      by_contra hsafe
      exact hbad ⟨hown, fun h => absurd h hsafe⟩
    have hpercent : isNotification line = false := by
      by_contra hp
      exact hbad ⟨hown, fun _ => Bool.eq_true_of_not_eq_false hp⟩
    exact ⟨_, not_faithful_of_other_end hsafe
      (fun l hl k hk => ⟨(hfront l hl k hk).1, (hfront l hl k hk).2 hsafe⟩) hm hown hpercent⟩

end Ends

/-- The filter shows a stream as it should where no line of a body ends its response; each
other line of a body can be followed by more that breaks the stream. -/
theorem filter_faithful (hread : ∀ r : SafeEnvironmentResponse, fromStr r.toJson = some r) :
    (∀ items : List Item, (∀ item ∈ items, item.Contained) → Faithful fromStr items) ∧
      ∀ (b : Block) (front : List Text) (line : Text), (b.withText front).Contained →
        ¬ (b.withText [line]).Contained →
        ∃ rest, ¬ Faithful fromStr [.block (b.withText (front ++ line :: rest))] :=
  ⟨fun _ h => (faithful_of_contained hread h).1, fun _ _ _ hfront hline => not_faithful_of_end hfront hline⟩

end Runs

def unescape : Text → Text
  | [] => []
  | c :: t =>
    if c ≠ 0x5c then c :: unescape t else
    match t with
    | [] => []
    | 0x75 :: _ :: _ :: high :: low :: t => (hexValue high * 16 + hexValue low) :: unescape t
    | d :: t => unescapeShort d :: unescape t

theorem unescape_escapeByte (c : UInt8) (t : Text) : unescape (escapeByte c ++ t) = c :: unescape t := by
  have hlow : ∀ n : Fin 32, hexValue (escapeByte.hexDigit (UInt8.ofNat n >>> 4)) * 16 +
      hexValue (escapeByte.hexDigit (UInt8.ofNat n &&& 0x0f)) = UInt8.ofNat n := by decide
  unfold escapeByte
  split_ifs with h1 h2 h3 h4 h5 h6 h7 h8
  all_goals try (subst c; rfl)
  · have hc := hlow ⟨c.toNat, h8⟩
    rw [UInt8.ofNat_toNat] at hc
    exact congrArg (· :: unescape t) hc
  · rw [List.singleton_append, unescape.eq_def]
    exact if_pos h2

theorem unescape_escape (s t : Text) : unescape (escape s ++ t) = s ++ unescape t := by
  induction s with
  | nil => rfl
  | cons c s ih =>
    rw [escape, List.flatMap_cons, List.append_assoc, unescape_escapeByte]
    exact congrArg (c :: ·) ih

/-- The text of a response before its payload. -/
def frontOf (status : Text) : Text :=
  0x7b :: (quote (utf8 "status") ++ 0x3a :: (quote status ++ 0x2c :: (quote (utf8 "payload") ++ [0x3a, 0x22])))

/-- A reader of the texts that are written for responses. -/
def readResponse (t : Text) : Option SafeEnvironmentResponse :=
  (((t.dropPrefix? (frontOf (utf8 "ok"))).bind (·.dropSuffix? [0x22, 0x7d])).map (.ok ∘ unescape)).or
    (((t.dropPrefix? (frontOf (utf8 "error"))).bind (·.dropSuffix? [0x22, 0x7d])).map (.error ∘ unescape))

theorem read_payload (status payload : Text) :
    ((frontOf status ++ (escape payload ++ [0x22, 0x7d])).dropPrefix? (frontOf status)).bind
      (·.dropSuffix? [0x22, 0x7d]) = some (escape payload) := by
  rw [List.dropPrefix?_append_of_beq _ (beq_self_eq_true _)]
  exact List.dropSuffix?_eq_some_iff.2 ⟨_, rfl, beq_self_eq_true _⟩

theorem readResponse_toJson (r : SafeEnvironmentResponse) : readResponse r.toJson = some r := by
  have hunescape (s : Text) : unescape (escape s) = s := by
    have h := unescape_escape s []
    rwa [List.append_nil, unescape, List.append_nil] at h
  cases r with
  | ok output =>
    have hr : (SafeEnvironmentResponse.ok output).toJson =
        frontOf (utf8 "ok") ++ (escape output ++ [0x22, 0x7d]) := by
      simp [SafeEnvironmentResponse.toJson, Value.toVec, entriesToVec, frontOf, quote]
    rw [hr, readResponse, read_payload]
    simp [hunescape]
  | error message =>
    have hr : (SafeEnvironmentResponse.error message).toJson =
        frontOf (utf8 "error") ++ (escape message ++ [0x22, 0x7d]) := by
      simp [SafeEnvironmentResponse.toJson, Value.toVec, entriesToVec, frontOf, quote]
    have hok (t : Text) : (frontOf (utf8 "error") ++ t).dropPrefix? (frontOf (utf8 "ok")) = none := by
      rw [Option.eq_none_iff_forall_ne_some]
      intro rest hrest
      obtain ⟨p, hp, hbeq⟩ := List.dropPrefix?_eq_some_iff.1 hrest
      obtain rfl := eq_of_beq hbeq
      have htake := congrArg (List.take 13) hp
      rw [List.take_append_of_le_length (by decide), List.take_append_of_le_length (by decide)]
        at htake
      exact absurd htake (by decide)
    rw [hr, readResponse, hok, read_payload]
    simp [hunescape]

/-- A response that holds no environment, with a line in its body that ends it. -/
def endedBlock : Block where
  timestamp := 0
  commandNumber := 1
  flags := 1
  failed := false
  body := .text [utf8 "%end 0 1 1\n", utf8 "%begin 0 9 2\n", utf8 "x\n"]
  timestamp_ge := by decide
  timestamp_lt := by decide
  commandNumber_lt := by decide
  flags_lt := by decide
  framed := fun h => by contradiction
  notifies := fun line h => by contradiction

theorem filter_faithful_frame : Faithful readResponse [.block { endedBlock with
    flags := 2
    body := .frame [] (.ok (utf8 "%end 0 1 1")) []
    flags_lt := by decide
    framed := fun _ => by decide
    notifies := fun line h => by contradiction }] :=
  (filter_faithful readResponse_toJson).1 _ fun item h => by
    obtain rfl := List.mem_singleton.1 h
    trivial

/-- The text of a command can end its response and begin one for the client. -/
theorem end_in_text_shown_otherwise : ¬ Faithful readResponse [.block endedBlock] := by
  intro h
  obtain ⟨body, last, heq, hbody⟩ :=
    @body_of_faithful _ endedBlock [utf8 "%end 0 1 1\n", utf8 "%begin 0 9 2\n", utf8 "x\n"] h
  obtain rfl : body = [utf8 "%end 0 1 1\n", utf8 "%begin 0 9 2\n", utf8 "x\n"] := hbody
  have hthird : (filterLines readResponse .default (endedBlock.withText
      [utf8 "%end 0 1 1\n", utf8 "%begin 0 9 2\n", utf8 "x\n"]).lines).1[3]? = some (utf8 "x\n") :=
    congrArg (·[3]?) heq
  exact absurd hthird (by decide)

end Winsmux.Control
