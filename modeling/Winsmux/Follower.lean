import Winsmux.Fallible

/-!
# Following a list that grows

A reader goes through the items behind a cursor and writes what each of them stands for, or
nothing. A reading is of all of them; a pass ends at the first that cannot be decoded. The
cursor of a pass is where the next one begins.
-/
namespace Winsmux.Follower
variable {α β ε : Type}

/-- What is written for an item, with the cursor behind the item. -/
def entries (n : ℕ) (b : Option β) : List (ℕ × β) := (b.map fun b => (n + 1, b)).toList

/-- The cursor behind the last entry; the one before where nothing is written. -/
def lastCursor (n : ℕ) (written : List (ℕ × β)) : ℕ := (written.getLast?.map Prod.fst).getD n

structure Pass (β ε : Type) where
  written : List (ℕ × β)
  cursor : ℕ
  failed : Option ε

section
variable (decode : ℕ → α → Except ε (Option β))

/-- All that is written for the items, or the error of the first that cannot be decoded. -/
def readFrom : ℕ → List α → Except ε (List (ℕ × β))
  | _, [] => .ok []
  | n, a :: l => do
    let b ← decode n a
    let rest ← readFrom (n + 1) l
    .ok (entries n b ++ rest)

def pass : ℕ → List α → Pass β ε
  | n, [] => ⟨[], n, none⟩
  | n, a :: l =>
    match decode n a with
    | .error e => ⟨[], n, some e⟩
    | .ok b =>
      let rest := pass (n + 1) l
      ⟨entries n b ++ rest.written, rest.cursor, rest.failed⟩

/-- Everything in front of the cursor is written, and nothing else. -/
def Written (l : List α) (n : ℕ) (out : List (ℕ × β)) : Prop :=
  n ≤ l.length ∧ readFrom decode 0 (l.take n) = .ok out

end

variable {decode : ℕ → α → Except ε (Option β)}

theorem readFrom_cons {n : ℕ} {a : α} {l : List α} {out : List (ℕ × β)} :
    readFrom decode n (a :: l) = .ok out ↔
      ∃ b rest, decode n a = .ok b ∧ readFrom decode (n + 1) l = .ok rest ∧ entries n b ++ rest = out := by
  rw [readFrom, bind_eq_ok]
  constructor
  · rintro ⟨b, hb, h⟩
    obtain ⟨rest, hrest, h⟩ := bind_eq_ok.1 h
    exact ⟨b, rest, hb, hrest, Except.ok.inj h⟩
  · rintro ⟨b, rest, hb, hrest, rfl⟩
    exact ⟨b, hb, bind_eq_ok.2 ⟨rest, hrest, rfl⟩⟩

theorem readFrom_append {n : ℕ} {l m : List α} {out : List (ℕ × β)} :
    readFrom decode n (l ++ m) = .ok out ↔ ∃ front back, readFrom decode n l = .ok front ∧
      readFrom decode (n + l.length) m = .ok back ∧ front ++ back = out := by
  induction l generalizing n out with
  | nil =>
    constructor
    · intro h
      exact ⟨[], out, rfl, by simpa using h, rfl⟩
    · rintro ⟨front, back, hfront, hback, rfl⟩
      obtain rfl : [] = front := Except.ok.inj hfront
      simpa using hback
  | cons a l ih =>
    rw [List.cons_append, readFrom_cons]
    constructor
    · rintro ⟨b, rest, hb, hrest, rfl⟩
      obtain ⟨front, back, hfront, hback, rfl⟩ := ih.1 hrest
      refine ⟨entries n b ++ front, back, readFrom_cons.2 ⟨b, front, hb, hfront, rfl⟩, ?_, by simp⟩
      rwa [List.length_cons, Nat.add_comm l.length, ← Nat.add_assoc]
    · rintro ⟨front, back, hfront, hback, rfl⟩
      obtain ⟨b, rest, hb, hrest, rfl⟩ := readFrom_cons.1 hfront
      rw [List.length_cons, Nat.add_comm l.length, ← Nat.add_assoc] at hback
      exact ⟨b, rest ++ back, hb, ih.2 ⟨rest, back, hrest, hback, rfl⟩, by simp⟩

/-- Each entry is written once, in the order of the items. -/
theorem readFrom_increasing {n : ℕ} {l : List α} {out : List (ℕ × β)} (h : readFrom decode n l = .ok out) :
    (∀ e ∈ out, n < e.1 ∧ e.1 ≤ n + l.length) ∧ out.Pairwise fun d e => d.1 < e.1 := by
  induction l generalizing n out with
  | nil =>
    obtain rfl : [] = out := Except.ok.inj h
    simp
  | cons a l ih =>
    obtain ⟨b, rest, -, hrest, rfl⟩ := readFrom_cons.1 h
    obtain ⟨hrange, hpair⟩ := ih hrest
    have hentries : ∀ e ∈ entries n b, e.1 = n + 1 := by
      intro e he
      cases b with
      | none => simp [entries] at he
      | some b => simp_all [entries]
    constructor
    · intro e he
      rw [List.length_cons]
      rcases List.mem_append.1 he with he | he
      · have := hentries e he
        omega
      · have := hrange e he
        omega
    · refine List.pairwise_append.2 ⟨?_, hpair, fun d hd e he => ?_⟩
      · cases b <;> simp [entries]
      · have := hentries d hd
        have := hrange e he
        omega

/-- What is written are the items that stand for something. -/
theorem mem_readFrom {n : ℕ} {l : List α} {out : List (ℕ × β)} (h : readFrom decode n l = .ok out)
    (k : ℕ) (b : β) : (k, b) ∈ out ↔
      ∃ i a, l[i]? = some a ∧ k = n + i + 1 ∧ decode (n + i) a = .ok (some b) := by
  induction l generalizing n out with
  | nil =>
    obtain rfl : [] = out := Except.ok.inj h
    simp
  | cons a l ih =>
    obtain ⟨b', rest, hb, hrest, rfl⟩ := readFrom_cons.1 h
    rw [List.mem_append, ih hrest]
    constructor
    · rintro (he | ⟨i, a', ha, rfl, hdec⟩)
      · cases b' with
        | none => simp [entries] at he
        | some b' =>
          obtain ⟨rfl, rfl⟩ : k = n + 1 ∧ b = b' := by simpa [entries] using he
          exact ⟨0, a, rfl, rfl, hb⟩
      · exact ⟨i + 1, a', ha, by omega, by rwa [← Nat.add_right_comm, Nat.add_assoc] at hdec⟩
    · rintro ⟨i, a', ha, rfl, hdec⟩
      cases i with
      | zero =>
        obtain rfl : a = a' := by simpa using ha
        obtain rfl : b' = some b := Except.ok.inj (hb.symm.trans hdec)
        exact .inl (by simp [entries])
      | succ i =>
        refine .inr ⟨i, a', by simpa using ha, by omega, ?_⟩
        rwa [Nat.add_right_comm, ← Nat.add_assoc] at *

theorem lastCursor_append (n : ℕ) (w w' : List (ℕ × β)) :
    lastCursor n (w ++ w') = lastCursor (lastCursor n w) w' := by
  unfold lastCursor
  rw [List.getLast?_append]
  cases w'.getLast? <;> rfl

/-- Nothing is written for the items behind the last entry. -/
theorem readFrom_lastCursor {n : ℕ} {l : List α} {out : List (ℕ × β)} (h : readFrom decode n l = .ok out) :
    ∃ m ≤ l.length, lastCursor n out = n + m ∧ readFrom decode n (l.take m) = .ok out := by
  induction l generalizing n out with
  | nil =>
    obtain rfl : [] = out := Except.ok.inj h
    exact ⟨0, le_rfl, rfl, rfl⟩
  | cons a l ih =>
    obtain ⟨b, rest, hb, hrest, rfl⟩ := readFrom_cons.1 h
    obtain ⟨m, hm, hlast, htake⟩ := ih hrest
    have hcons : readFrom decode n ((a :: l).take (m + 1)) = .ok (entries n b ++ rest) :=
      readFrom_cons.2 ⟨b, rest, hb, htake, rfl⟩
    cases b with
    | some b =>
      refine ⟨m + 1, Nat.succ_le_succ hm, ?_, hcons⟩
      rw [lastCursor_append, show lastCursor n (entries n (some b)) = n + 1 from rfl, hlast]
      omega
    | none =>
      cases hr : rest.getLast? with
      | none =>
        obtain rfl : rest = [] := List.getLast?_eq_none_iff.1 hr
        exact ⟨0, Nat.zero_le _, rfl, rfl⟩
      | some e =>
        refine ⟨m + 1, Nat.succ_le_succ hm, ?_, hcons⟩
        simp only [lastCursor, hr, Option.map_some, Option.getD_some] at hlast
        simp only [lastCursor, entries, Option.map_none, Option.toList_none, List.nil_append, hr,
          Option.map_some, Option.getD_some]
        omega

/-- A pass is a reading up to its cursor; it stops at the end or in front of an item that cannot
be decoded. -/
theorem pass_spec (decode : ℕ → α → Except ε (Option β)) (n : ℕ) (l : List α) :
    ∃ m ≤ l.length, (pass decode n l).cursor = n + m ∧
    readFrom decode n (l.take m) = .ok (pass decode n l).written ∧
    ((pass decode n l).failed = none ∧ m = l.length ∨
      ∃ e a, (pass decode n l).failed = some e ∧ l[m]? = some a ∧ decode (n + m) a = .error e) := by
  induction l generalizing n with
  | nil => exact ⟨0, le_rfl, rfl, rfl, .inl ⟨rfl, rfl⟩⟩
  | cons a l ih =>
    cases hdec : decode n a with
    | error e =>
      refine ⟨0, Nat.zero_le _, ?_, ?_, .inr ⟨e, a, ?_, rfl, hdec⟩⟩ <;> simp [pass, hdec, readFrom]
    | ok b =>
      obtain ⟨m, hm, hcursor, hread, hend⟩ := ih (n + 1)
      refine ⟨m + 1, Nat.succ_le_succ hm, ?_, ?_, ?_⟩
      · simp only [pass, hdec, hcursor]
        omega
      · simp only [pass, hdec]
        exact readFrom_cons.2 ⟨b, _, hdec, hread, rfl⟩
      · simp only [pass, hdec]
        refine hend.imp (fun h => ⟨h.1, by simp [h.2]⟩) ?_
        rintro ⟨e, a', he, ha, hd⟩
        refine ⟨e, a', he, by simpa using ha, ?_⟩
        rwa [Nat.add_right_comm] at hd

theorem pass_eq_of_readFrom {n : ℕ} {l : List α} {out : List (ℕ × β)} (h : readFrom decode n l = .ok out) :
    pass decode n l = ⟨out, n + l.length, none⟩ := by
  induction l generalizing n out with
  | nil =>
    obtain rfl : [] = out := Except.ok.inj h
    rfl
  | cons a l ih =>
    obtain ⟨b, rest, hb, hrest, rfl⟩ := readFrom_cons.1 h
    simp only [pass, hb, ih hrest, List.length_cons]
    rw [Nat.add_right_comm, Nat.add_assoc]

theorem pass_failed_iff {n : ℕ} {l : List α} :
    (pass decode n l).failed = none ↔ ∃ out, readFrom decode n l = .ok out := by
  constructor
  · intro hnone
    obtain ⟨m, -, -, hread, hend⟩ := pass_spec decode n l
    obtain ⟨-, rfl⟩ | ⟨e, a, he, -⟩ := hend
    · rw [List.take_length] at hread
      exact ⟨_, hread⟩
    · rw [hnone] at he
      cases he
  · rintro ⟨out, hread⟩
    rw [pass_eq_of_readFrom hread]

theorem exists_readFrom_iff {n : ℕ} {l : List α} : (∃ out, readFrom decode n l = .ok out) ↔
    ∀ i a, l[i]? = some a → ∃ b, decode (n + i) a = .ok b := by
  induction l generalizing n with
  | nil => simp [readFrom]
  | cons a l ih =>
    constructor
    · rintro ⟨out, h⟩ i a' ha
      obtain ⟨b, rest, hb, hrest, -⟩ := readFrom_cons.1 h
      cases i with
      | zero =>
        obtain rfl : a = a' := by simpa using ha
        exact ⟨b, hb⟩
      | succ i =>
        rw [Nat.add_comm i, ← Nat.add_assoc]
        exact ih.1 ⟨rest, hrest⟩ i a' (by simpa using ha)
    · intro h
      obtain ⟨b, hb⟩ := h 0 a rfl
      obtain ⟨rest, hrest⟩ := ih.2 fun i a' ha => by
        have := h (i + 1) a' (by simpa using ha)
        rwa [Nat.add_comm i, ← Nat.add_assoc] at this
      exact ⟨_, readFrom_cons.2 ⟨b, rest, hb, hrest, rfl⟩⟩

theorem Written.nil (l : List α) : Written decode l 0 [] := ⟨Nat.zero_le _, rfl⟩

/-- The list may grow. -/
theorem Written.grow {l l' : List α} {n : ℕ} {out : List (ℕ × β)} (h : Written decode l n out)
    (hl : l <+: l') : Written decode l' n out := by
  obtain ⟨m, rfl⟩ := hl
  refine ⟨h.1.trans (by simp), ?_⟩
  rw [List.take_append_of_le_length h.1]
  exact h.2

theorem Written.read {l : List α} {n m : ℕ} {out w : List (ℕ × β)} (h : Written decode l n out)
    (hm : m ≤ (l.drop n).length) (hw : readFrom decode n ((l.drop n).take m) = .ok w) :
    Written decode l (n + m) (out ++ w) := by
  obtain ⟨hn, hread⟩ := h
  rw [List.length_drop] at hm
  refine ⟨by omega, ?_⟩
  rw [List.take_add, readFrom_append]
  refine ⟨out, w, hread, ?_, rfl⟩
  rwa [List.length_take, Nat.min_eq_left hn, Nat.zero_add]

/-- A pass from the cursor writes what was not written. -/
theorem Written.turn {l : List α} {n : ℕ} {out : List (ℕ × β)} (h : Written decode l n out) :
    Written decode l (pass decode n (l.drop n)).cursor (out ++ (pass decode n (l.drop n)).written) ∧
      ((pass decode n (l.drop n)).failed = none → (pass decode n (l.drop n)).cursor = l.length) := by
  obtain ⟨m, hm, hcursor, hread, hend⟩ := pass_spec decode n (l.drop n)
  rw [hcursor]
  refine ⟨h.read hm hread, fun hnone => ?_⟩
  obtain ⟨-, rfl⟩ | ⟨e, a, he, -⟩ := hend
  · have := h.1
    rw [List.length_drop]
    omega
  · rw [hnone] at he
    cases he

theorem Written.readAll_iff {l : List α} {n : ℕ} {out : List (ℕ × β)} (h : Written decode l n out) :
    (∃ w, readFrom decode n (l.drop n) = .ok w) ↔ ∃ w, readFrom decode 0 l = .ok w := by
  have hsplit : l.take n ++ l.drop n = l := List.take_append_drop n l
  have hlen : 0 + (l.take n).length = n := by
    have := h.1
    simp [this]
  constructor
  · rintro ⟨w, hw⟩
    refine ⟨out ++ w, ?_⟩
    rw [← hsplit, readFrom_append]
    exact ⟨out, w, h.2, by rwa [hlen], rfl⟩
  · rintro ⟨w, hw⟩
    rw [← hsplit, readFrom_append] at hw
    obtain ⟨front, back, -, hback, -⟩ := hw
    exact ⟨back, by rwa [hlen] at hback⟩

/-- The cursor behind the last entry of a pass is as good as the one of the pass. -/
theorem Written.behindLast {l : List α} {n r : ℕ} {out : List (ℕ × β)} (h : Written decode l n out)
    (hr : Written decode l r out) (hrn : r ≤ n) :
    Written decode l (lastCursor r (pass decode n (l.drop n)).written) (out ++ (pass decode n (l.drop n)).written) ∧
      lastCursor r (pass decode n (l.drop n)).written ≤ (pass decode n (l.drop n)).cursor := by
  obtain ⟨m, hm, hcursor, hread, -⟩ := pass_spec decode n (l.drop n)
  rw [hcursor]
  obtain ⟨k, hk, hlast, htake⟩ := readFrom_lastCursor hread
  generalize (pass decode n (l.drop n)).written = w at *
  rw [List.length_take] at hk
  cases hw : w.getLast? with
  | none =>
    obtain rfl : w = [] := List.getLast?_eq_none_iff.1 hw
    rw [List.append_nil]
    exact ⟨hr, hrn.trans (Nat.le_add_right n m)⟩
  | some e =>
    have hsame : lastCursor r w = lastCursor n w := by simp [lastCursor, hw]
    rw [hsame, hlast]
    rw [List.take_take, Nat.min_eq_left (by omega)] at htake
    exact ⟨h.read (by omega) htake, by omega⟩

end Winsmux.Follower
