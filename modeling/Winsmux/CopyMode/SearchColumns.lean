import Winsmux.CopyMode.SearchSteps

/-!
# When the offsets of a search are columns

A scan keeps the offset of every place the query is found in, as long as the query begins with
a character of one byte. So it keeps the matches where the bytes of the lowered row up to each
of them count the columns.
-/
namespace Winsmux.CopyMode

/-- The place is pushed: the next scan begins between two characters, and the sum fits if it is
checked. -/
def Kept (checks : Bool) (q : List Char) (off : ℕ) : Prop :=
  (∀ c ∈ q.head?, c.utf8Size = 1) ∧ (checks → off % 2 ^ 16 + byteLen q % 2 ^ 16 < 2 ^ 16)

/-- What is pushed for an offset. -/
def pushedAt (q : List Char) (r off : ℕ) : Match := ⟨r, off % 2 ^ 16, (off + byteLen q) % 2 ^ 16⟩

theorem ofBuild_u16_iff {checks : Bool} {a b x : ℕ} :
    (ofBuild checks).u16 (a % 2 ^ 16 + b % 2 ^ 16) = some x ↔
      (checks → a % 2 ^ 16 + b % 2 ^ 16 < 2 ^ 16) ∧ (a + b) % 2 ^ 16 = x := by
  have hadd : (a % 2 ^ 16 + b % 2 ^ 16) % 2 ^ 16 = (a + b) % 2 ^ 16 := (Nat.add_mod a b _).symm
  unfold ofBuild
  dsimp only
  split
  · next hlt =>
    rw [Option.some.injEq, ← hadd, Nat.mod_eq_of_lt hlt]
    exact ⟨fun h => ⟨fun _ => hlt, h⟩, And.right⟩
  · next hlt =>
    cases checks with
    | true => exact ⟨nofun, fun h => absurd (h.1 rfl) hlt⟩
    | false => simp only [Bool.false_eq_true, if_false, Option.some.injEq, hadd, false_imp_iff, true_and]

section
variable {checks : Bool} {q : List Char} {r : ℕ}

/-- A scan from between two characters. -/
theorem scanRow_at (front rest : List Char) :
    scanRow checks q (front ++ rest) r (byteLen front) = (match find q rest with
      | none => some []
      | some pos => do
        let colEnd ← (ofBuild checks).u16 ((byteLen front + pos) % 2 ^ 16 + byteLen q % 2 ^ 16)
        let more ← scanRow checks q (front ++ rest) r (byteLen front + (pos + 1))
        some (⟨r, (byteLen front + pos) % 2 ^ 16, colEnd⟩ :: more)) := by
  rw [scanRow]
  split
  · next h => rw [sliceFrom_append] at h; cases h
  · next rest' h => rw [sliceFrom_append] at h; cases h; rfl

theorem scanRow_end (hq : q ≠ []) (front : List Char) : scanRow checks q front r (byteLen front) = some [] := by
  have h : scanRow checks q (front ++ []) r (byteLen front) = _ := scanRow_at front []
  rw [List.append_nil] at h
  rw [h, find, if_neg (by simpa using hq)]

theorem scanRow_skip (front : List Char) {c : Char} {t : List Char} (hc : ¬q.isPrefixOf (c :: t)) :
    scanRow checks q (front ++ c :: t) r (byteLen front) =
      scanRow checks q (front ++ [c] ++ t) r (byteLen (front ++ [c])) := by
  rw [scanRow_at, scanRow_at, find, if_neg hc]
  cases find q t with
  | none => rfl
  | some pos =>
    have hoff : byteLen (front ++ [c]) + pos = byteLen front + (c.utf8Size + pos) := by simp; omega
    have hrow : front ++ [c] ++ t = front ++ c :: t := by simp
    simp only [Option.map_some, hoff, hrow, ← Nat.add_assoc]

theorem scanRow_hit (front : List Char) {c : Char} {t : List Char} (hc : q.isPrefixOf (c :: t)) :
    scanRow checks q (front ++ c :: t) r (byteLen front) = (do
      let colEnd ← (ofBuild checks).u16 (byteLen front % 2 ^ 16 + byteLen q % 2 ^ 16)
      let more ← scanRow checks q (front ++ c :: t) r (byteLen front + 1)
      some (⟨r, byteLen front % 2 ^ 16, colEnd⟩ :: more)) := by
  rw [scanRow_at, find, if_pos hc]
  rfl

theorem scanRow_inside (front : List Char) {c : Char} (t : List Char) (hc : 1 < c.utf8Size) :
    scanRow checks q (front ++ c :: t) r (byteLen front + 1) = none := by
  rw [scanRow]
  split
  · rfl
  · next rest h => rw [sliceFrom_inside front t hc] at h; cases h

variable (checks r) in
/-- A scan ends if every place is pushed, and then with all of them. -/
theorem scanRow_eq_some_iff (hq : q ≠ []) (front rest : List Char) (found : List Match) :
    scanRow checks q (front ++ rest) r (byteLen front) = some found ↔
      (∀ k ∈ occurrences q rest, Kept checks q (byteLen front + byteLen (rest.take k))) ∧
      (occurrences q rest).map (fun k => pushedAt q r (byteLen front + byteLen (rest.take k))) = found := by
  induction rest generalizing front found with
  | nil => simp [scanRow_end hq, occurrences]
  | cons c t ih =>
    have hlater : ∀ k, byteLen (front ++ [c]) + byteLen (t.take k) =
        byteLen front + byteLen ((c :: t).take (k + 1)) := by
      intro k
      simp [Nat.add_assoc]
    have hnext := fun found => ih (front ++ [c]) found
    simp only [hlater] at hnext
    rw [occurrences_cons]
    by_cases hc : q.isPrefixOf (c :: t)
    · rw [scanRow_hit front hc, if_pos hc]
      simp only [List.singleton_append, List.forall_mem_cons, List.forall_mem_map, List.map_cons, List.map_map,
        List.take_zero, byteLen_nil, Nat.add_zero]
      obtain ⟨q', rfl⟩ : ∃ q', q = c :: q' := by
        cases q with
        | nil => exact absurd rfl hq
        | cons d q' => exact ⟨q', by simp_all [List.isPrefixOf]⟩
      by_cases hone : c.utf8Size = 1
      · have hoff : byteLen front + 1 = byteLen (front ++ [c]) := by simp [hone]
        have hrow : front ++ c :: t = front ++ [c] ++ t := by simp
        rw [hoff, hrow]
        simp only [Option.bind_eq_bind, Option.bind_eq_some_iff, ofBuild_u16_iff, hnext, Option.some.injEq]
        constructor
        · rintro ⟨_, ⟨hfits, rfl⟩, _, ⟨hkept, rfl⟩, rfl⟩
          exact ⟨⟨⟨by simpa using hone, hfits⟩, hkept⟩, rfl⟩
        · rintro ⟨⟨⟨_, hfits⟩, hkept⟩, rfl⟩
          exact ⟨_, ⟨hfits, rfl⟩, _, ⟨hkept, rfl⟩, rfl⟩
      · have hlong : 1 < c.utf8Size := by have := c.utf8Size_pos; omega
        rw [scanRow_inside front t hlong]
        simp [Kept, hone]
    · rw [scanRow_skip front hc, if_neg hc, hnext]
      simp only [List.nil_append, List.forall_mem_map, List.map_map, Function.comp_def]

end

theorem mapM_eq_some_iff {f : ℕ → Option β} {P : ℕ → Prop} {g : ℕ → β} {l : List ℕ} {bs : List β}
    (h : ∀ a b, f a = some b ↔ P a ∧ g a = b) : l.mapM f = some bs ↔ (∀ a ∈ l, P a) ∧ l.map g = bs := by
  induction l generalizing bs with
  | nil => simp
  | cons a l ih =>
    simp only [List.mapM_cons, Option.pure_def, Option.bind_eq_bind, Option.bind_eq_some_iff, h, ih, Option.some.injEq,
      List.forall_mem_cons, List.map_cons]
    constructor
    · rintro ⟨_, ⟨ha, rfl⟩, _, ⟨hl, rfl⟩, rfl⟩
      exact ⟨⟨ha, hl⟩, rfl⟩
    · rintro ⟨⟨ha, hl⟩, rfl⟩
      exact ⟨_, ⟨ha, rfl⟩, _, ⟨hl, rfl⟩, rfl⟩

@[simp] theorem map_snd_spread (texts : List (ℕ × List Char)) :
    (spread texts).map Prod.snd = (texts.map Prod.snd).flatten := by
  induction texts with
  | nil => rfl
  | cons x texts ih => simpa [spread, Function.comp_def] using ih

theorem fst_of_mem_spread {texts : List (ℕ × List Char)} {x : ℕ × Char} (h : x ∈ spread texts) :
    x.1 ∈ texts.map Prod.fst := by
  obtain ⟨y, hy, ch, -, rfl⟩ : ∃ y ∈ texts, ∃ ch ∈ y.2, (y.1, ch) = x := by simpa [spread] using h
  exact List.mem_map_of_mem hy

section
variable {table : CaseTable} {p : Pane} {screen : Screen} {r : ℕ}

theorem map_snd_rowCells : (rowCells p screen r).map Prod.snd = rowText p screen r := by
  simp [rowCells, rowText, List.flatMap_def, Function.comp_def]

/-- The characters are those of the lowered row. -/
theorem map_snd_loweredCells : (loweredCells table p screen r).map Prod.snd =
    table.toLowercase (rowText p screen r) := by
  have hlen : (table.lowerPieces [] (rowText p screen r)).length = ((rowCells p screen r).map Prod.fst).length := by
    rw [table.length_lowerPieces, ← map_snd_rowCells, List.length_map, List.length_map]
  rw [loweredCells, map_snd_spread, List.map_snd_zip (by omega), CaseTable.toLowercase]

theorem scanPane_eq_some_iff {checks : Bool} {query : List Char} (hq : query ≠ []) {found : List Match} :
    scanPane table checks p screen query = some found ↔
      (∀ r < p.lastRows, ∀ k ∈ occurrences (table.toLowercase query) ((loweredCells table p screen r).map Prod.snd),
        Kept checks (table.toLowercase query) (byteLen (((loweredCells table p screen r).map Prod.snd).take k))) ∧
      (List.range p.lastRows).flatMap (fun r =>
        (occurrences (table.toLowercase query) ((loweredCells table p screen r).map Prod.snd)).map fun k =>
          pushedAt (table.toLowercase query) r (byteLen (((loweredCells table p screen r).map Prod.snd).take k))) =
        found := by
  have hrow := fun r found => scanRow_eq_some_iff checks r (table.toLowercase_ne_nil hq) []
    (table.toLowercase (rowText p screen r)) found
  simp only [List.nil_append, byteLen_nil, Nat.zero_add] at hrow
  simp only [scanPane, Option.bind_eq_bind, Option.bind_eq_some_iff, mapM_eq_some_iff hrow, Option.some.injEq,
    map_snd_loweredCells, List.mem_range, List.flatMap_def]
  constructor
  · rintro ⟨_, ⟨hkept, rfl⟩, rfl⟩
    exact ⟨hkept, rfl⟩
  · rintro ⟨hkept, rfl⟩
    exact ⟨_, ⟨hkept, rfl⟩, rfl⟩

end

/-- Each column is the next one after `n` columns, or the last of them again. -/
def Consecutive : ℕ → List ℕ → Prop
  | _, [] => True
  | n, c :: l => (c = n ∨ c + 1 = n) ∧ Consecutive (c + 1) l

theorem consecutive_range' (n len : ℕ) : Consecutive n (List.range' n len) := by
  induction len generalizing n with
  | zero => exact trivial
  | succ len ih => exact ⟨.inl rfl, ih (n + 1)⟩

theorem consecutive_replicate {c : ℕ} {l : List ℕ} (h : Consecutive (c + 1) l) (k : ℕ) :
    Consecutive (c + 1) (List.replicate k c ++ l) := by
  induction k with
  | zero => exact h
  | succ k ih => exact ⟨.inr rfl, ih⟩

theorem consecutive_spread {n : ℕ} {texts : List (ℕ × List Char)} (h : Consecutive n (texts.map Prod.fst))
    (hne : ∀ x ∈ texts, x.2 ≠ []) : Consecutive n ((spread texts).map Prod.fst) := by
  induction texts generalizing n with
  | nil => exact trivial
  | cons x texts ih =>
    obtain ⟨hx, hrest⟩ := h
    obtain ⟨hne₀, hne⟩ := List.forall_mem_cons.1 hne
    obtain ⟨ch, t, ht⟩ : ∃ ch t, x.2 = ch :: t := List.exists_cons_of_ne_nil hne₀
    have hcols : (spread (x :: texts)).map Prod.fst =
        x.1 :: (List.replicate t.length x.1 ++ (spread texts).map Prod.fst) := by
      simp [spread, ht, Function.comp_def, List.map_const']
    rw [hcols]
    exact ⟨hx, consecutive_replicate (ih hrest hne) _⟩

theorem le_succ_of_consecutive {n : ℕ} {l : List ℕ} (h : Consecutive n l) {c : ℕ} (hc : c ∈ l) : n ≤ c + 1 := by
  induction l generalizing n with
  | nil => cases hc
  | cons d l ih =>
    obtain ⟨hd, hl⟩ := h
    rcases List.mem_cons.1 hc with rfl | hc
    · omega
    · have hlater := ih hl hc
      omega

theorem getD_mem {l : List ℕ} {k : ℕ} (h : k < l.length) : l.getD k 0 ∈ l := by
  rw [List.getD_eq_getElem?_getD, List.getElem?_eq_getElem h]
  exact List.getElem_mem h

theorem getD_mono {n : ℕ} {l : List ℕ} (h : Consecutive n l) {i j : ℕ} (hij : i ≤ j) (hj : j < l.length) :
    l.getD i 0 ≤ l.getD j 0 := by
  induction l generalizing n i j with
  | nil => simp at hj
  | cons c l ih =>
    obtain ⟨-, hl⟩ := h
    cases i with
    | zero =>
      cases j with
      | zero => exact le_rfl
      | succ j =>
        have hlater := le_succ_of_consecutive hl (getD_mem (by simpa using hj : j < l.length))
        rw [List.getD_cons_zero, List.getD_cons_succ]
        omega
    | succ i =>
      cases j with
      | zero => omega
      | succ j => exact ih hl (by omega) (by simpa using hj)

theorem getD_le {n : ℕ} {l : List ℕ} (h : Consecutive n l) {k : ℕ} (hk : k < l.length) : l.getD k 0 ≤ n + k := by
  induction l generalizing n k with
  | nil => simp at hk
  | cons c l ih =>
    obtain ⟨hc, hl⟩ := h
    cases k with
    | zero => rw [List.getD_cons_zero]; omega
    | succ k =>
      have hle := ih hl (by simpa using hk)
      rw [List.getD_cons_succ]
      omega

/-- A column as far as its place is reached by single steps. -/
theorem getD_eq_of_getD_eq {n : ℕ} {l : List ℕ} (h : Consecutive n l) {k : ℕ} (hk : k < l.length)
    (heq : l.getD k 0 = n + k) {j : ℕ} (hj : j ≤ k) : l.getD j 0 = n + j := by
  induction l generalizing n k j with
  | nil => simp at hk
  | cons c l ih =>
    obtain ⟨hc, hl⟩ := h
    cases k with
    | zero =>
      obtain rfl : j = 0 := by omega
      exact heq
    | succ k =>
      rw [List.getD_cons_succ] at heq
      have hk' : k < l.length := by simpa using hk
      have hle := getD_le hl hk'
      cases j with
      | zero => rw [List.getD_cons_zero]; omega
      | succ j =>
        have hih := ih hl hk' (by omega) (Nat.le_of_succ_le_succ hj)
        rw [List.getD_cons_succ]
        omega

section
variable {table : CaseTable} {p : Pane} {screen : Screen} {r : ℕ}

theorem cellText_ne_nil (screen : Screen) (r c : ℕ) : cellText screen r c ≠ [] := by
  unfold cellText
  split
  · split
    · exact List.cons_ne_nil _ _
    · next h => exact fun hnil => h (by simp [hnil])
  · exact List.cons_ne_nil _ _

theorem consecutive_loweredCells : Consecutive 0 ((loweredCells table p screen r).map Prod.fst) := by
  have hlen : ((rowCells p screen r).map Prod.fst).length = (table.lowerPieces [] (rowText p screen r)).length := by
    rw [table.length_lowerPieces, ← map_snd_rowCells, List.length_map, List.length_map]
  refine consecutive_spread ?_ fun x hx => table.ne_nil_of_mem_lowerPieces (List.of_mem_zip hx).2
  rw [List.map_fst_zip (by omega), rowCells]
  refine consecutive_spread ?_ fun x hx => ?_
  · rw [List.map_map]
    simpa [Function.comp_def, List.range_eq_range'] using consecutive_range' 0 p.lastCols
  · obtain ⟨c, -, rfl⟩ := List.mem_map.1 hx
    exact cellText_ne_nil screen r c

theorem columnAt_lt {k : ℕ} (hk : k < (loweredCells table p screen r).length) :
    columnAt (loweredCells table p screen r) k < p.lastCols := by
  have hk' : k < ((loweredCells table p screen r).map Prod.fst).length := by simpa using hk
  obtain ⟨x, hx, hxk⟩ := List.mem_map.1 (getD_mem hk')
  rw [columnAt, ← hxk]
  obtain ⟨y, hy, hyx⟩ := List.mem_map.1 (fst_of_mem_spread hx)
  obtain ⟨z, hz, hzy⟩ := List.mem_map.1 (List.of_mem_zip hy).1
  have hcell := fst_of_mem_spread hz
  simp only [List.map_map, Function.comp_def, List.map_id_fun', id, List.mem_range] at hcell
  omega

end

/-- In place `k` of a row the bytes keep step with the columns, as numbers of 16 bits: those in
front of the query, and those up to its end. The query begins with a single byte. -/
structure InStep (q : List Char) (lowered : List (ℕ × Char)) (k : ℕ) : Prop where
  single : ∀ c ∈ q.head?, c.utf8Size = 1
  start : byteLen ((lowered.map Prod.snd).take k) ≡ columnAt lowered k [MOD 2 ^ 16]
  behind : byteLen ((lowered.map Prod.snd).take k) + byteLen q ≡ columnAt lowered (k + q.length - 1) + 1 [MOD 2 ^ 16]

section
variable {table : CaseTable} {p : Pane} {screen : Screen} {r k : ℕ} {q : List Char}

theorem add_length_le_of_mem_occurrences {text : List Char} (hk : k ∈ occurrences q text) :
    k + q.length ≤ text.length := by
  obtain ⟨hlt, hfront⟩ := mem_occurrences.1 hk
  have hlen := hfront.length_le
  rw [List.length_drop] at hlen
  omega

theorem inStep_iff (hq : q ≠ []) (hk : k ∈ occurrences q ((loweredCells table p screen r).map Prod.snd))
    (checks : Bool) :
    Kept checks q (byteLen (((loweredCells table p screen r).map Prod.snd).take k)) ∧
      pushedAt q r (byteLen (((loweredCells table p screen r).map Prod.snd).take k)) =
        matchAt (loweredCells table p screen r) q.length r k ↔
    InStep q (loweredCells table p screen r) k := by
  have hle := add_length_le_of_mem_occurrences hk
  have hqpos := List.length_pos_iff.2 hq
  rw [List.length_map] at hle
  have hstart := columnAt_lt (show k < (loweredCells table p screen r).length by omega)
  have hend := columnAt_lt (show k + q.length - 1 < (loweredCells table p screen r).length by omega)
  have hmono : columnAt (loweredCells table p screen r) k ≤
      columnAt (loweredCells table p screen r) (k + q.length - 1) :=
    getD_mono consecutive_loweredCells (by omega) (by rw [List.length_map]; omega)
  have hcols := p.cols_lt
  generalize hoff : byteLen (((loweredCells table p screen r).map Prod.snd).take k) = off
  have hmatch : pushedAt q r off = matchAt (loweredCells table p screen r) q.length r k ↔
      off % 2 ^ 16 = columnAt (loweredCells table p screen r) k ∧
      (off + byteLen q) % 2 ^ 16 = columnAt (loweredCells table p screen r) (k + q.length - 1) + 1 := by
    simp [pushedAt, matchAt]
  have hstart' : off ≡ columnAt (loweredCells table p screen r) k [MOD 2 ^ 16] ↔
      off % 2 ^ 16 = columnAt (loweredCells table p screen r) k := by
    rw [Nat.ModEq, Nat.mod_eq_of_lt (by omega : columnAt (loweredCells table p screen r) k < 2 ^ 16)]
  have hbehind : off + byteLen q ≡ columnAt (loweredCells table p screen r) (k + q.length - 1) + 1 [MOD 2 ^ 16] ↔
      (off + byteLen q) % 2 ^ 16 = columnAt (loweredCells table p screen r) (k + q.length - 1) + 1 := by
    rw [Nat.ModEq,
      Nat.mod_eq_of_lt (by omega : columnAt (loweredCells table p screen r) (k + q.length - 1) + 1 < 2 ^ 16)]
  rw [hmatch]
  constructor
  · rintro ⟨hkept, hs, hb⟩
    exact ⟨hkept.1, by rw [hoff]; exact hstart'.2 hs, by rw [hoff]; exact hbehind.2 hb⟩
  · rintro ⟨hsingle, hs, hb⟩
    rw [hoff] at hs hb
    have hs' := hstart'.1 hs
    have hb' := hbehind.1 hb
    refine ⟨⟨hsingle, fun _ => ?_⟩, hs', hb'⟩
    -- the end is behind the start, so the sum did not wrap around
    omega

theorem forall_mem_take {P : Char → Prop} {text : List Char} {m : ℕ} :
    (∀ c ∈ text.take m, P c) ↔ ∀ j < m, ∀ c ∈ text[j]?, P c := by
  simp only [List.mem_iff_getElem?, List.getElem?_take]
  constructor
  · exact fun h j hj c hc => h c ⟨j, by simpa [hj] using hc⟩
  · rintro h c ⟨j, hc⟩
    split at hc
    · next hj => exact h j hj c hc
    · cases hc

/-- In a row shorter than 2^16 bytes: up to its end every character is a single byte, in a cell
of its own. -/
theorem inStep_iff_single (hq : q ≠ []) (hk : k ∈ occurrences q ((loweredCells table p screen r).map Prod.snd))
    (hshort : byteLen ((loweredCells table p screen r).map Prod.snd) < 2 ^ 16) :
    InStep q (loweredCells table p screen r) k ↔
      ∀ j < k + q.length, columnAt (loweredCells table p screen r) j = j ∧
        ∀ c ∈ ((loweredCells table p screen r).map Prod.snd)[j]?, c.utf8Size = 1 := by
  have hle := add_length_le_of_mem_occurrences hk
  have hqpos := List.length_pos_iff.2 hq
  have hlen : ((loweredCells table p screen r).map Prod.fst).length =
      ((loweredCells table p screen r).map Prod.snd).length := by
    rw [List.length_map, List.length_map]
  have hcols := @consecutive_loweredCells table p screen r
  have hfront := List.prefix_iff_eq_take.1 (mem_occurrences.1 hk).2
  generalize hlow : loweredCells table p screen r = lowered at *
  generalize htext : lowered.map Prod.snd = text at *
  have htake : text.take (k + q.length) = text.take k ++ q := by rw [List.take_add, ← hfront]
  have hsum : byteLen (text.take k) + byteLen q = byteLen (text.take (k + q.length)) := by rw [htake, byteLen_append]
  have hall : byteLen (text.take (k + q.length)) ≤ byteLen text := by
    conv_rhs => rw [← List.take_append_drop (k + q.length) text, byteLen_append]
    exact Nat.le_add_right _ _
  constructor
  · rintro ⟨-, -, hbehind⟩
    rw [htext, hsum] at hbehind
    have hplace : columnAt lowered (k + q.length - 1) ≤ 0 + (k + q.length - 1) := getD_le hcols (by omega)
    have hbytes := length_le_byteLen (text.take (k + q.length))
    rw [List.length_take_of_le hle] at hbytes
    have heq : byteLen (text.take (k + q.length)) = columnAt lowered (k + q.length - 1) + 1 :=
      hbehind.eq_of_lt_of_lt (by omega) (by omega)
    have hsingle := byteLen_eq_length_iff.1 (show byteLen (text.take (k + q.length)) = _ by
      rw [List.length_take_of_le hle]; omega)
    refine fun j hj => ⟨?_, forall_mem_take.1 hsingle j hj⟩
    have hj := getD_eq_of_getD_eq hcols (k := k + q.length - 1) (by omega)
      (show columnAt lowered (k + q.length - 1) = _ by omega) (show j ≤ _ by omega)
    rw [columnAt, hj, Nat.zero_add]
  · intro h
    have hcount : ∀ m ≤ k + q.length, byteLen (text.take m) = m := by
      intro m hm
      rw [byteLen_eq_length_iff.2 (forall_mem_take.2 fun j hj => (h j (by omega)).2), List.length_take_of_le (by omega)]
    refine ⟨fun c hc => (h k (by omega)).2 c ?_, ?_, ?_⟩
    · obtain ⟨q', rfl⟩ := List.head?_eq_some_iff.1 hc
      obtain ⟨behind, hdrop⟩ := (mem_occurrences.1 hk).2
      rw [← List.head?_drop, ← hdrop]
      rfl
    · rw [htext, hcount k (by omega), (h k (by omega)).1]
    · rw [htext, hsum, hcount _ le_rfl, (h _ (by omega)).1, Nat.sub_add_cancel (by omega)]

end

theorem flatMap_map_eq_iff {l : List ℕ} {o : ℕ → List ℕ} {f g : ℕ → ℕ → Match} :
    l.flatMap (fun r => (o r).map (f r)) = l.flatMap (fun r => (o r).map (g r)) ↔
      ∀ r ∈ l, ∀ k ∈ o r, f r k = g r k := by
  induction l with
  | nil => simp
  | cons r l ih =>
    rw [List.flatMap_cons, List.flatMap_cons, List.forall_mem_cons, ← ih, ← List.map_inj_left]
    exact ⟨fun h => List.append_inj h (by simp), fun ⟨hr, hl⟩ => by rw [hr, hl]⟩

section
variable (table : CaseTable) (p : Pane) (screen : Screen) (query : List Char)

/-- Wherever the lowered query occurs in a lowered row, it is in step. -/
def AllInStep : Prop :=
  ∀ r < p.lastRows, ∀ k ∈ occurrences (table.toLowercase query) ((loweredCells table p screen r).map Prod.snd),
    InStep (table.toLowercase query) (loweredCells table p screen r) k

instance {q : List Char} {lowered : List (ℕ × Char)} {k : ℕ} : Decidable (InStep q lowered k) :=
  decidable_of_iff ((q.head?.all fun c => c.utf8Size = 1) = true ∧
    byteLen ((lowered.map Prod.snd).take k) ≡ columnAt lowered k [MOD 2 ^ 16] ∧
    byteLen ((lowered.map Prod.snd).take k) + byteLen q ≡ columnAt lowered (k + q.length - 1) + 1 [MOD 2 ^ 16])
    ⟨fun h => ⟨by simpa [Option.all_eq_true] using h.1, h.2.1, h.2.2⟩,
      fun h => ⟨by simpa [Option.all_eq_true] using h.single, h.start, h.behind⟩⟩

instance : Decidable (AllInStep table p screen query) := by
  unfold AllInStep
  infer_instance

/-- What a search leaves: the matches of the screen in order, inside the pane; steps put the
cursor on them, and a turn round the list visits every one of them once. -/
structure Finds (forward : Bool) (found : App) : Prop where
  found_eq : found.copySearchMatches =
    if forward then screenMatches table p screen query else (screenMatches table p screen query).reverse
  inside : ∀ m ∈ found.copySearchMatches, m.row < p.lastRows ∧ m.colStart < p.lastCols ∧ m.colEnd ≤ p.lastCols
  cursor : ∀ moves, ∃ app, steps moves found = some app ∧
    (app.copyPos = found.copyPos ∨ ∃ m ∈ screenMatches table p screen query, app.copyPos = some m.cursor)
  turns : found.wraps → ∀ idx < found.copySearchMatches.length, ∀ back : Bool, ∃ cursors,
    turn (searchStep !back) found.copySearchMatches.length { found with copySearchIdx := idx } = some cursors ∧
    cursors.Perm ((screenMatches table p screen query).map fun m => some m.cursor)

variable {table p screen query}

theorem scanPane_eq_screenMatches_iff (checks : Bool) (hq : query ≠ []) :
    scanPane table checks p screen query = some (screenMatches table p screen query) ↔
      AllInStep table p screen query := by
  have hq' := table.toLowercase_ne_nil hq
  rw [scanPane_eq_some_iff hq]
  dsimp only [screenMatches]
  rw [flatMap_map_eq_iff]
  simp only [List.mem_range, AllInStep]
  constructor
  · rintro ⟨hkept, heq⟩ r hr k hk
    exact (inStep_iff hq' hk checks).1 ⟨hkept r hr k hk, heq r hr k hk⟩
  · intro h
    have hboth := fun r hr k hk => (inStep_iff hq' hk checks).2 (h r hr k hk)
    exact ⟨fun r hr k hk => (hboth r hr k hk).1, fun r hr k hk => (hboth r hr k hk).2⟩

theorem screenMatches_inside {m : Match} (hq : query ≠ []) (hm : m ∈ screenMatches table p screen query) :
    m.row < p.lastRows ∧ m.colStart < p.lastCols ∧ m.colEnd ≤ p.lastCols := by
  obtain ⟨r, hr, hm⟩ := List.mem_flatMap.1 hm
  obtain ⟨k, hk, rfl⟩ := List.mem_map.1 hm
  have hle := add_length_le_of_mem_occurrences hk
  have hqpos := List.length_pos_iff.2 (table.toLowercase_ne_nil hq)
  rw [List.length_map] at hle
  exact ⟨List.mem_range.1 hr, columnAt_lt (by omega), Nat.succ_le_of_lt (columnAt_lt (by omega))⟩

theorem searchCopyMode_eq {checks forward : Bool} {app : App} (hp : app.activePane = some p) (hs : p.term = some screen)
    (hq : query ≠ []) : searchCopyMode table checks app query forward =
      (scanPane table checks p screen query).map fun found =>
        { app with copySearchMatches := if forward then found else found.reverse, copySearchIdx := 0 } := by
  have hempty : query.isEmpty = false := by simpa using hq
  simp only [searchCopyMode, hempty, hp, hs, Bool.false_eq_true, if_false]
  cases scanPane table checks p screen query <;> rfl

/-- Matches in order are all that the rest needs. -/
theorem finds_of_found_eq {forward : Bool} {found : App} (hq : query ≠ []) (hidx : found.copySearchIdx = 0)
    (hfound : found.copySearchMatches =
      if forward then screenMatches table p screen query else (screenMatches table p screen query).reverse) :
    Finds table p screen query forward found := by
  have hperm : found.copySearchMatches.Perm (screenMatches table p screen query) := by
    rw [hfound]
    split
    · exact .refl _
    · exact List.reverse_perm _
  refine ⟨hfound, fun m hm => screenMatches_inside hq (hperm.mem_iff.1 hm), fun moves => ?_, ?_⟩
  · obtain ⟨app, happ, hstep⟩ := stepped_steps (.inr hidx) moves
    refine ⟨app, happ, hstep.cursor.imp id ?_⟩
    rintro ⟨m, hm, hcursor⟩
    exact ⟨m, hperm.mem_iff.1 hm, hcursor⟩
  · intro hwraps idx hlt back
    have hturn : ∃ cursors, turn (searchStep !back) found.copySearchMatches.length { found with copySearchIdx := idx } =
        some cursors ∧ cursors.Perm (found.copySearchMatches.map fun m => some m.cursor) := by
      cases back with
      | false =>
        exact @turn_perm searchNext nextIdx nextIdx_lt (fun _ => searchNext_of_wraps) round_nextIdx
          { found with copySearchIdx := idx } hwraps hlt
      | true =>
        exact @turn_perm searchPrev prevIdx prevIdx_lt (fun _ => searchPrev_of_wraps) round_prevIdx
          { found with copySearchIdx := idx } hwraps hlt
    obtain ⟨cursors, hcursors, hvisits⟩ := hturn
    exact ⟨cursors, hcursors, hvisits.trans (hperm.map _)⟩

/-- A search finds the matches of the screen if and only if every place of the query is in step. -/
theorem search_finds_iff (table : CaseTable) (checks : Bool) {app : App} (hp : app.activePane = some p)
    (hs : p.term = some screen) (hq : query ≠ []) (forward : Bool) :
    (∃ found, searchCopyMode table checks app query forward = some found ∧ Finds table p screen query forward found) ↔
      AllInStep table p screen query := by
  rw [searchCopyMode_eq hp hs hq, ← scanPane_eq_screenMatches_iff checks hq]
  constructor
  · rintro ⟨found, hsome, hfinds⟩
    obtain ⟨kept, hkept, rfl⟩ := Option.map_eq_some_iff.1 hsome
    have heq := hfinds.found_eq
    rw [hkept, Option.some.injEq]
    cases forward with
    | true => exact heq
    | false => exact List.reverse_injective heq
  · intro hscan
    refine ⟨_, by rw [hscan]; rfl, finds_of_found_eq hq rfl rfl⟩

end

/-- One row of three cells. -/
def rowScreen (cells : List (List Char)) : Screen where
  cell r c := if r = 0 then cells[c]? else none

def rowPane (cells : List (List Char)) : Pane where
  lastRows := 1
  lastCols := 3
  term := some (rowScreen cells)
  rows_lt := by decide
  cols_lt := by decide

def rowApp (cells : List (List Char)) : App where
  activePane := some (rowPane cells)
  userOptions _ := none
  copySearchMatches := []
  copySearchIdx := 0
  copyPos := none

theorem search_finds_plain : ∃ found,
    searchCopyMode asciiCase true (rowApp [['a'], ['B'], ['b']]) ['B'] false = some found ∧
      Finds asciiCase (rowPane [['a'], ['B'], ['b']]) (rowScreen [['a'], ['B'], ['b']]) ['B'] false found :=
  (search_finds_iff asciiCase true rfl rfl (List.cons_ne_nil _ _) false).2 (by decide)

/-- Behind an accented letter the column is one too far, and a search for the letter itself panics. -/
theorem not_finds_accent :
    (¬∃ found, searchCopyMode asciiCase true (rowApp [['é'], ['x'], []]) ['x'] true = some found ∧
      Finds asciiCase (rowPane [['é'], ['x'], []]) (rowScreen [['é'], ['x'], []]) ['x'] true found) ∧
    searchCopyMode asciiCase true (rowApp [['é'], ['x'], []]) ['é'] true = none := by
  have hscan : ∀ found, scanPane asciiCase true (rowPane [['é'], ['x'], []]) (rowScreen [['é'], ['x'], []]) ['x'] =
      some found → found = [⟨0, 2, 3⟩] := by
    intro found h
    rw [← ((scanPane_eq_some_iff (List.cons_ne_nil _ _)).1 h).2]
    decide
  constructor
  · rintro ⟨found, hsome, hfinds⟩
    rw [searchCopyMode_eq rfl rfl (List.cons_ne_nil _ _)] at hsome
    obtain ⟨kept, hkept, rfl⟩ := Option.map_eq_some_iff.1 hsome
    have heq := hfinds.found_eq
    rw [hscan kept hkept] at heq
    exact absurd heq (by decide)
  · rw [searchCopyMode_eq rfl rfl (List.cons_ne_nil _ _), Option.map_eq_none_iff, Option.eq_none_iff_forall_ne_some]
    intro found h
    have hkept := ((scanPane_eq_some_iff (List.cons_ne_nil _ _)).1 h).1 0 (by decide) 0 (by decide)
    exact absurd (hkept.1 'é' rfl) (by decide)

end Winsmux.CopyMode
