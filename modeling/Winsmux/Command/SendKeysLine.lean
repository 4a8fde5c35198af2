import Winsmux.Command.SendKeysWritten

/-!
# The command line of `send-keys`

What is kept of the arguments on the way to the server, and for which arguments the active pane gets
what was on the line.
-/
namespace Winsmux.Command
open CharText List

variable {upper : Char → Chars}

theorem withoutTarget_sublist (l : List Chars) : withoutTarget l <+ l := by
  induction l using withoutTarget.induct with
  | case1 => exact .slnil
  | case2 => simp [withoutTarget]
  | case3 a h => rw [withoutTarget, if_neg h]
  | case4 b rest ih =>
    rw [withoutTarget, if_pos rfl]
    exact (ih.cons b).cons _
  | case5 a b rest h ih =>
    rw [withoutTarget, if_neg h]
    exact ih.cons_cons a

theorem withoutTarget_of_not_mem {l : List Chars} (h : ['-', 't'] ∉ l) : withoutTarget l = l := by
  induction l using withoutTarget.induct with
  | case1 => rfl
  | case2 => simp at h
  | case3 a ha => rw [withoutTarget, if_neg ha]
  | case4 b rest ih => simp at h
  | case5 a b rest ha ih => rw [withoutTarget, if_neg ha, ih (List.not_mem_of_not_mem_cons h)]

theorem keyArgs_sublist (previous : Chars) (l : List Chars) :
    keyArgs previous l <+ l.filter (·.head? ≠ some '-') := by
  induction l generalizing previous with
  | nil => exact .slnil
  | cons a l ih =>
    rw [keyArgs, List.filter_cons]
    split
    · split
      · exact (ih a).cons a
      · exact ih a
    · next h =>
      have hdash : a.head? ≠ some '-' := fun hdash => h (.inl hdash)
      rw [if_pos (decide_eq_true hdash)]
      exact (ih a).cons_cons a

theorem keyArgs_of_not_mem {previous : Chars} {l : List Chars} (h : ['-', 'N'] ∉ previous :: l) :
    keyArgs previous l = l.filter (·.head? ≠ some '-') := by
  induction l generalizing previous with
  | nil => rfl
  | cons a l ih =>
    have hprevious : previous ≠ ['-', 'N'] := fun hp => h (hp ▸ List.mem_cons_self)
    rw [keyArgs, List.filter_cons, ih (List.not_mem_of_not_mem_cons h)]
    by_cases hdash : a.head? = some '-' <;> simp [hdash, hprevious]

theorem repeatCount_of_not_mem {l : List Chars} (h : ['-', 'N'] ∉ l) : repeatCount l = 1 := by
  have hnone : l.dropWhile (· ≠ ['-', 'N']) = [] := by
    rw [List.dropWhile_eq_nil_iff]
    exact fun a ha => decide_eq_true fun hN => h (hN ▸ ha)
  rw [repeatCount, hnone]
  rfl

/-- Behind the options, every argument that is not empty is read. -/
theorem tail_parse_sendKeysLine (literal dashes : Bool) (args : List Chars) :
    (parseCommandLine (sendKeysLine literal dashes args)).tail =
      sendKeysOptions literal dashes ++ args.filter (· ≠ []) := by
  rw [sendKeysLine, parseCommandLine_joinArgs]
  have hoptions : (sendKeysOptions literal dashes).filter (· ≠ []) = sendKeysOptions literal dashes := by
    cases literal <;> cases dashes <;> rfl
  rw [List.filter_cons, if_pos (by decide), List.tail_cons, List.filter_append, hoptions]

/-- What the connection goes on with. -/
def lineArgs (literal dashes : Bool) (args : List Chars) : List Chars :=
  withoutTarget (sendKeysOptions literal dashes ++ args.filter (· ≠ []))

/-- The arguments that are sent. -/
def keptArgs (literal dashes : Bool) (args : List Chars) : List Chars :=
  keyArgs [] (lineArgs literal dashes args)

section
variable {literal dashes : Bool} {args : List Chars}

theorem keptArgs_sublist :
    keptArgs literal dashes args <+ args.filter fun a => a ≠ [] ∧ a.head? ≠ some '-' := by
  have hoptions : (sendKeysOptions literal dashes).filter (·.head? ≠ some '-') = [] := by
    cases literal <;> cases dashes <;> rfl
  have hkept := (keyArgs_sublist [] _).trans
    ((withoutTarget_sublist (sendKeysOptions literal dashes ++ args.filter (· ≠ []))).filter _)
  rw [List.filter_append, hoptions, List.nil_append, List.filter_filter] at hkept
  have hcongr : args.filter (fun a => decide (a.head? ≠ some '-') && decide (a ≠ [])) =
      args.filter fun a => a ≠ [] ∧ a.head? ≠ some '-' :=
    List.filter_congr fun a _ => by simp [Bool.and_comm]
  rw [← hcongr]
  exact hkept

/-- An argument that is sent. -/
def IsPlain (a : Chars) : Prop := a ≠ [] ∧ a.head? ≠ some '-'

theorem isPlain_of_mem_keptArgs {a : Chars} (ha : a ∈ keptArgs literal dashes args) :
    a ∈ args ∧ IsPlain a := by
  have hmem := keptArgs_sublist.subset ha
  rw [List.mem_filter, decide_eq_true_eq] at hmem
  exact hmem

theorem option_not_mem {o : Chars} (ho : o.head? = some '-') (hne : o ∉ sendKeysOptions literal dashes)
    (hargs : ∀ a ∈ args, IsPlain a) : o ∉ sendKeysOptions literal dashes ++ args := by
  rw [List.mem_append]
  rintro (h | h)
  · exact hne h
  · exact (hargs o h).2 ho

variable (hargs : ∀ a ∈ args, IsPlain a)
include hargs

theorem lineArgs_of_plain : lineArgs literal dashes args = sendKeysOptions literal dashes ++ args := by
  have hall : args.filter (· ≠ []) = args :=
    List.filter_eq_self.2 fun a ha => decide_eq_true (hargs a ha).1
  rw [lineArgs, hall, withoutTarget_of_not_mem]
  exact option_not_mem rfl (by cases literal <;> cases dashes <;> decide) hargs

theorem keptArgs_of_plain : keptArgs literal dashes args = args := by
  have hN : ['-', 'N'] ∉ sendKeysOptions literal dashes ++ args :=
    option_not_mem rfl (by cases literal <;> cases dashes <;> decide) hargs
  have hoptions : (sendKeysOptions literal dashes).filter (·.head? ≠ some '-') = [] := by
    cases literal <;> cases dashes <;> rfl
  rw [keptArgs, lineArgs_of_plain hargs, keyArgs_of_not_mem (by simpa using hN), List.filter_append,
    hoptions, List.nil_append, List.filter_eq_self]
  exact fun a ha => decide_eq_true (hargs a ha).2

/-- Arguments of which none is empty or looks like an option are all sent, with the option that is
given. -/
theorem sent_of_plain : sent upper (sendKeysLine literal dashes args) =
    some (sendKeysWrites upper (joinArgs args) literal) := by
  have hnot (o : Chars) (ho : o.head? = some '-') (hne : o ∉ sendKeysOptions literal dashes) :=
    option_not_mem ho hne hargs
  have hN := hnot ['-', 'N'] rfl (by cases literal <;> cases dashes <;> decide)
  have hX := hnot ['-', 'X'] rfl (by cases literal <;> cases dashes <;> decide)
  have hp := hnot ['-', 'p'] rfl (by cases literal <;> cases dashes <;> decide)
  have hl : ['-', 'l'] ∈ sendKeysOptions literal dashes ++ args ↔ literal = true := by
    constructor
    · intro h
      by_contra hliteral
      exact hnot ['-', 'l'] rfl (by cases literal <;> cases dashes <;> simp_all [sendKeysOptions]) h
    · rintro rfl
      exact List.mem_append_left _ (List.mem_append_left _ List.mem_cons_self)
  have hkept : keptArgs literal dashes args = args := keptArgs_of_plain hargs
  have hline : lineArgs literal dashes args = sendKeysOptions literal dashes ++ args :=
    lineArgs_of_plain hargs
  rw [keptArgs, hline] at hkept
  rw [lineArgs] at hline
  rw [sent, tail_parse_sendKeysLine, hline, sendKeysRequests, repeatCount_of_not_mem hN, if_neg hX,
    if_neg hp, hkept]
  cases literal <;> simp_all

end

theorem length_joinArgs_cons (a : Chars) (args : List Chars) :
    (joinArgs (a :: args)).length + 1 = ((a :: args).map fun a => a.length + 1).sum := by
  induction args generalizing a with
  | nil => simp [joinArgs]
  | cons b args ih =>
    have hrest := ih b
    rw [joinArgs] at hrest ⊢
    rw [List.intercalate_cons_cons, List.map_cons, List.sum_cons, ← hrest]
    simp only [List.length_append, List.length_singleton]
    omega

theorem eq_or_sum_lt {kept args : List Chars} (h : kept <+ args) :
    kept = args ∨
      (kept.map fun a => a.length + 1).sum < (args.map fun a => a.length + 1).sum := by
  induction h with
  | slnil => exact .inl rfl
  | @cons kept args a _ ih =>
    right
    rw [List.map_cons, List.sum_cons]
    rcases ih with rfl | hlt
    · omega
    · omega
  | @cons_cons kept args a _ ih =>
    rw [List.map_cons, List.map_cons, List.sum_cons, List.sum_cons]
    rcases ih with rfl | hlt
    · exact .inl rfl
    · right
      omega

/-- An argument that is left out is missing in the text, unless it is empty and the only one. -/
theorem eq_of_joinArgs_eq {kept args : List Chars} (h : kept <+ args)
    (heq : joinArgs kept = joinArgs args) : kept = args ∨ args = [[]] := by
  have hlength := congrArg List.length heq
  match kept, args with
  | _, [] => exact .inl (List.sublist_nil.1 h)
  | [], [a] =>
    right
    have hnil : a = [] := by
      simpa [joinArgs] using heq.symm
    rw [hnil]
  | [], a :: b :: args =>
    have hjoin := length_joinArgs_cons a (b :: args)
    rw [← hlength] at hjoin
    simp only [joinArgs, List.intercalate_nil, List.length_nil, List.map_cons, List.sum_cons] at hjoin
    omega
  | k :: kept, a :: args =>
    have hkept := length_joinArgs_cons k kept
    have hargs := length_joinArgs_cons a args
    rcases eq_or_sum_lt h with h | h
    · exact .inl h
    · omega

section
variable {literal dashes : Bool} {args writes : List Chars}

theorem of_sent (h : sent upper (sendKeysLine literal dashes args) = some writes) :
    writes = sendKeysWrites upper (joinArgs (keptArgs literal dashes args))
      (['-', 'l'] ∈ lineArgs literal dashes args) := by
  have hline : withoutTarget (parseCommandLine (sendKeysLine literal dashes args)).tail =
      lineArgs literal dashes args := by rw [tail_parse_sendKeysLine, lineArgs]
  rw [sent, hline] at h
  split at h
  · next keys flag hrequests =>
    cases h
    have hmem : Request.sendKeys keys flag ∈ sendKeysRequests (lineArgs literal dashes args) := by
      rw [hrequests]
      exact List.mem_cons_self
    have hrequest := List.eq_of_mem_replicate hmem
    split at hrequest
    · cases hrequest
    · split at hrequest
      · cases hrequest
      · cases hrequest
        rfl
  · cases h

theorem keptArgs_sublist_args : keptArgs literal dashes args <+ args :=
  keptArgs_sublist.trans filter_sublist

/-- With `-l`, what is written is what is on the line. -/
theorem sent_literal_iff : sent upper (sendKeysLine true dashes args) = some [joinArgs args] ↔
    (∀ a ∈ args, IsPlain a) ∨ args = [[]] := by
  constructor
  · intro h
    have hflag : ['-', 'l'] ∈ lineArgs true dashes args := by
      rw [lineArgs, sendKeysOptions, if_pos rfl, List.append_assoc, List.singleton_append]
      cases h : (if dashes then [['-', '-']] else []) ++ args.filter (· ≠ []) with
      | nil => decide
      | cons b rest =>
        rw [withoutTarget, if_neg (by decide)]
        exact List.mem_cons_self
    have hwrites := of_sent h
    rw [sendKeysWrites, if_pos (decide_eq_true hflag)] at hwrites
    rcases eq_of_joinArgs_eq keptArgs_sublist_args (List.cons.inj hwrites).1.symm with heq | hnil
    · left
      rw [← heq]
      exact fun a ha => (isPlain_of_mem_keptArgs ha).2
    · exact .inr hnil
  · rintro (hplain | rfl)
    · rw [sent_of_plain hplain, sendKeysWrites, if_pos rfl]
    · have hrequests : sendKeysRequests (withoutTarget (sendKeysOptions true dashes ++ [])) =
          [.sendKeys [] true] := by cases dashes <;> decide
      have hempty : ([[]] : List Chars).filter (· ≠ []) = [] := rfl
      rw [sent, tail_parse_sendKeysLine, hempty, hrequests]
      rfl

theorem Sendable.isPlain {w : Chars} (h : Sendable upper w) : IsPlain w := ⟨h.word.1, h.noDash⟩

theorem Idle.isPlain {a : Chars} (h : Idle a) : IsPlain a := by
  rcases h with ⟨hne, hall⟩ | ⟨c, -, rfl⟩
  · refine ⟨hne, fun hdash => ?_⟩
    obtain ⟨t, rfl⟩ := List.head?_eq_some_iff.1 hdash
    exact absurd (hall '-' List.mem_cons_self) (by decide)
  · refine ⟨by simp, fun hdash => ?_⟩
    exact absurd (Option.some.inj hdash) (by decide)

/-- With `-l` among the arguments, more than one of them goes into the text, or that one is lost. -/
theorem map_piece_ne_of_option (hflag : ['-', 'l'] ∈ lineArgs false dashes args) :
    args.map (piece upper) ≠ [joinArgs (keptArgs false dashes args)] := by
  intro h
  have hmem : ['-', 'l'] ∈ args := by
    have hline := (withoutTarget_sublist _).subset hflag
    rcases List.mem_append.1 hline with hoption | harg
    · cases dashes <;> simp [sendKeysOptions] at hoption
    · exact List.mem_of_mem_filter harg
  obtain ⟨a, rfl⟩ := List.length_eq_one_iff.1 (by simpa using congrArg List.length h)
  obtain rfl := List.mem_singleton.1 hmem
  have hkept : keptArgs false dashes [['-', 'l']] = [] := by
    rw [List.eq_nil_iff_forall_not_mem]
    intro k hk
    obtain ⟨hk, hplain⟩ := isPlain_of_mem_keptArgs hk
    rw [List.mem_singleton.1 hk] at hplain
    exact hplain.2 rfl
  rw [hkept, List.map_singleton, piece, isKeyName_of_head (by decide) (by decide)] at h
  cases h

/-- Without `-l`, every argument is written as one text. -/
theorem sent_keys_iff : sent upper (sendKeysLine false dashes args) = some (args.map (piece upper)) ↔
    ∃ ws, (∀ w ∈ ws, Sendable upper w) ∧ args = spaced upper ws := by
  constructor
  · intro h
    have hwrites := of_sent h
    by_cases hflag : ['-', 'l'] ∈ lineArgs false dashes args
    · rw [sendKeysWrites, if_pos (decide_eq_true hflag)] at hwrites
      exact absurd hwrites (map_piece_ne_of_option hflag)
    · rw [sendKeysWrites, if_neg (by simpa using hflag), joinArgs, splitWhitespace_intercalate]
        at hwrites
      have hall (a : Chars) (ha : a ∈ args) : Sendable upper a ∨ Idle a :=
        sendable_or_idle hwrites.symm
          (fun k hk => ⟨(isPlain_of_mem_keptArgs hk).1, (isPlain_of_mem_keptArgs hk).2.2⟩) ha
      have hplain (a : Chars) (ha : a ∈ args) : IsPlain a :=
        (hall a ha).elim Sendable.isPlain Idle.isPlain
      rw [keptArgs_of_plain hplain] at hwrites
      exact ⟨_, eq_spaced hall hwrites.symm⟩
  · rintro ⟨ws, hws, rfl⟩
    have hplain (a : Chars) (ha : a ∈ spaced upper ws) : IsPlain a := by
      rcases mem_spaced ha with ha | rfl
      · exact (hws a ha).isPlain
      · exact ⟨by simp, by decide⟩
    rw [sent_of_plain hplain, sendKeysWrites, if_neg (by decide), joinArgs,
      splitWhitespace_intercalate, splitWhitespace_spaced fun w hw => (hws w hw).word,
      sendWords_spaced hws]

end

/-- The active pane gets what is on the line: with `-l` if and only if no argument is empty or begins
with a dash, or the only one is empty; without `-l` if and only if the arguments are words, none of
them beginning with a dash, with an argument that is one blank between two words of which the first is
text and the second not in the server's list of keys. -/
theorem sent_iff (upper : Char → Chars) (dashes : Bool) (args : List Chars) :
    (sent upper (sendKeysLine true dashes args) = some [joinArgs args] ↔
      (∀ a ∈ args, IsPlain a) ∨ args = [[]]) ∧
    (sent upper (sendKeysLine false dashes args) = some (args.map (piece upper)) ↔
      ∃ ws, (∀ w ∈ ws, Sendable upper w) ∧ args = spaced upper ws) :=
  ⟨sent_literal_iff, sent_keys_iff⟩

/-- A word inside an argument is typed as a key, and the blanks of the argument are gone. -/
theorem sent_splits_argument :
    let args := ["press  Enter now".toList]
    sent (fun c => [c]) (sendKeysLine false false args) =
        some ["press".toList, ['\r'], "now".toList] ∧
      sent (fun c => [c]) (sendKeysLine false false args) ≠ some (args.map (piece fun c => [c])) := by
  decide +kernel

end Winsmux.Command
