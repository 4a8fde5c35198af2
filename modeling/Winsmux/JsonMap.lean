import Mathlib.Data.List.Lex
import Winsmux.Json

/-!
# Objects as ordered maps

A parsed document keeps the entries of an object as they were written. A value in
memory keeps them by key, each key once: `normal` is the value of a document, and
a `Canonical` value is one that reading its own text gives back.
-/
namespace Winsmux.Json

/-- Keys are compared byte by byte. -/
def rank (key : Text) : List ℕ := key.map UInt8.toNat

theorem rank_injective : Function.Injective rank :=
  List.map_injective_iff.mpr fun _ _ h => UInt8.toNat_inj.mp h

section
variable {α : Type*}

/-- Put an entry at its place, over an older one with the same key. -/
@[grind =] def insertKey (key : Text) (v : α) : List (Text × α) → List (Text × α)
  | [] => [(key, v)]
  | (k, w) :: es =>
    if key = k then (key, v) :: es
    else if rank key < rank k then (key, v) :: (k, w) :: es
    else (k, w) :: insertKey key v es

@[grind =] def eraseKey (key : Text) (es : List (Text × α)) : List (Text × α) :=
  es.filter fun e => e.1 ≠ key

/-- Change the value under a key in place. -/
@[grind =] def updateKey (key : Text) (f : α → α) (es : List (Text × α)) : List (Text × α) :=
  es.map fun e => if e.1 = key then (e.1, f e.2) else e

/-- Keys strictly ascending. -/
def Sorted (es : List (Text × α)) : Prop := es.Pairwise fun d e => rank d.1 < rank e.1

end

mutual

/-- The value of a parsed document: entries by key, the last of each key. -/
def Value.normal : Value → Value
  | .arr items => .arr (normalItems items)
  | .obj entries => .obj (normalEntries [] entries)
  | v => v

def normalItems : List Value → List Value
  | [] => []
  | v :: vs => v.normal :: normalItems vs

def normalEntries (done : List (Text × Value)) : List (Text × Value) → List (Text × Value)
  | [] => done
  | (k, v) :: es => normalEntries (insertKey k v.normal done) es

end

/-- The bytes of a number literal. -/
def isNumberByte (c : UInt8) : Bool := 0x30 ≤ c && c ≤ 0x39 || c ∈ [0x2b, 0x2d, 0x2e, 0x45, 0x65]

inductive Value.Canonical : Value → Prop
  | null : Canonical .null
  | bool (b : Bool) : Canonical (.bool b)
  | num (n : ℕ) : Canonical (.num n)
  | number {literal : Text} (h : literal.all isNumberByte) : Canonical (.number literal)
  | str (s : Text) : Canonical (.str s)
  | arr {items : List Value} (h : ∀ v ∈ items, Canonical v) : Canonical (.arr items)
  | obj {entries : List (Text × Value)} (hs : Sorted entries) (h : ∀ e ∈ entries, Canonical e.2) :
    Canonical (.obj entries)

section
variable {α : Type*} {key k : Text} {v w : α} {es : List (Text × α)}

@[simp] theorem lookup_insertKey_self : (insertKey key v es).lookup key = some v := by
  induction es with
  | nil => simp [insertKey]
  | cons e es ih =>
    obtain ⟨k, w⟩ := e
    unfold insertKey
    by_cases hk : key = k
    · simp [hk]
    · split_ifs
      · simp
      · rw [List.lookup_cons, beq_eq_false_iff_ne.mpr hk]
        exact ih

theorem lookup_insertKey_ne (h : k ≠ key) : (insertKey key v es).lookup k = es.lookup k := by
  induction es with
  | nil => simp [insertKey, List.lookup_cons, beq_eq_false_iff_ne.mpr h]
  | cons e es ih =>
    obtain ⟨k', w⟩ := e
    unfold insertKey
    split_ifs with hk
    · subst hk
      simp [List.lookup_cons, beq_eq_false_iff_ne.mpr h]
    · simp [List.lookup_cons, beq_eq_false_iff_ne.mpr h]
    · simp only [List.lookup_cons, ih]

theorem mem_insertKey {e : Text × α} (h : e ∈ insertKey key v es) : e = (key, v) ∨ e ∈ es := by
  induction es with
  | nil => simpa [insertKey] using h
  | cons d es ih =>
    obtain ⟨k, w⟩ := d
    unfold insertKey at h
    split_ifs at h
    · rcases List.mem_cons.mp h with h | h
      · exact .inl h
      · exact .inr (List.mem_cons_of_mem _ h)
    · exact List.mem_cons.mp h
    · rcases List.mem_cons.mp h with h | h
      · exact .inr (by simp [h])
      · exact (ih h).imp_right (List.mem_cons_of_mem _)

theorem mem_of_lookup (h : es.lookup key = some v) : (key, v) ∈ es := by
  induction es with
  | nil => cases h
  | cons e es ih =>
    obtain ⟨k, w⟩ := e
    by_cases hk : key = k
    · subst hk
      obtain rfl : w = v := by simpa using h
      simp
    · rw [List.lookup_cons, beq_eq_false_iff_ne.mpr hk] at h
      exact List.mem_cons_of_mem _ (ih h)

theorem mem_insertKey_self : (key, v) ∈ insertKey key v es := mem_of_lookup lookup_insertKey_self

/-- No key is lost. -/
theorem exists_mem_insertKey {e : Text × α} (he : e ∈ es) :
    ∃ e' ∈ insertKey key v es, e'.1 = e.1 := by
  induction es with
  | nil => cases he
  | cons d es ih =>
    obtain ⟨k, w⟩ := d
    unfold insertKey
    rcases List.mem_cons.mp he with rfl | he
    · split_ifs with hk
      · exact ⟨(key, v), by simp, hk⟩
      · exact ⟨(k, w), by simp, rfl⟩
      · exact ⟨(k, w), by simp, rfl⟩
    · split_ifs
      · exact ⟨e, List.mem_cons_of_mem _ he, rfl⟩
      · exact ⟨e, List.mem_cons_of_mem _ (List.mem_cons_of_mem _ he), rfl⟩
      · obtain ⟨e', he', heq⟩ := ih he
        exact ⟨e', List.mem_cons_of_mem _ he', heq⟩

theorem Sorted.insertKey (hs : Sorted es) : Sorted (insertKey key v es) := by
  induction es with
  | nil => simp [Json.insertKey, Sorted]
  | cons e es ih =>
    obtain ⟨k, w⟩ := e
    have ⟨hlt, hs'⟩ := List.pairwise_cons.mp hs
    unfold Json.insertKey
    split_ifs with heq hrank
    · subst heq
      exact List.pairwise_cons.mpr ⟨hlt, hs'⟩
    · refine List.pairwise_cons.mpr ⟨fun d hd => ?_, hs⟩
      rcases List.mem_cons.mp hd with rfl | hd
      · exact hrank
      · exact hrank.trans (hlt d hd)
    · refine List.pairwise_cons.mpr ⟨fun d hd => ?_, ih hs'⟩
      rcases mem_insertKey hd with rfl | hd
      · exact lt_of_le_of_ne (not_lt.mp hrank) fun h => heq (rank_injective h.symm)
      · exact hlt d hd

theorem Sorted.updateKey {f : α → α} (hs : Sorted es) : Sorted (updateKey key f es) := by
  refine List.Pairwise.map _ (fun d e h => ?_) hs
  split_ifs <;> exact h

theorem Sorted.eraseKey (hs : Sorted es) : Sorted (eraseKey key es) := hs.filter _

@[simp] theorem eraseKey_insertKey : eraseKey key (insertKey key v es) = eraseKey key es := by
  induction es with
  | nil => simp [eraseKey, insertKey]
  | cons e es ih =>
    obtain ⟨k, w⟩ := e
    unfold insertKey
    split_ifs with heq
    · subst heq
      simp [eraseKey]
    · simp [eraseKey]
    · simp only [eraseKey, List.filter_cons] at ih ⊢
      rw [ih]

theorem updateKey_of_lookup_eq_none {f : α → α} (h : es.lookup key = none) :
    updateKey key f es = es := by
  refine (List.map_congr_left fun e he => ?_).trans (List.map_id _)
  have hne : key ≠ e.1 := by simpa using List.lookup_eq_none_iff.mp h e he
  simp [Ne.symm hne]

/-- A change in place forgets what was stored before it. -/
theorem updateKey_insertKey {f : α → α} (hs : Sorted es) (h : es.lookup key = some w)
    (hf : f v = f w) : updateKey key f (insertKey key v es) = updateKey key f es := by
  induction es with
  | nil => simp at h
  | cons e es ih =>
    obtain ⟨k, u⟩ := e
    have ⟨hlt, hs'⟩ := List.pairwise_cons.mp hs
    unfold insertKey
    by_cases heq : key = k
    · subst heq
      obtain rfl : u = w := by simpa using h
      simp [updateKey, hf]
    · have hmem : es.lookup key = some w := by
        rwa [List.lookup_cons, beq_eq_false_iff_ne.mpr heq] at h
      have hnlt : ¬ rank key < rank k := by
        intro hk
        obtain ⟨d, hd, hdk⟩ : ∃ d ∈ es, d.1 = key := by
          by_contra hno
          push Not at hno
          have : es.lookup key = none :=
            List.lookup_eq_none_iff.mpr fun d hd => by simpa using (hno d hd).symm
          simp [this] at hmem
        have := hlt d hd
        rw [hdk] at this
        exact lt_asymm hk this
      rw [if_neg heq, if_neg hnlt]
      have := ih hs' hmem
      simp only [updateKey, List.map_cons] at this ⊢
      rw [this]

theorem updateKey_insertKey_of_none {f : α → α} (h : es.lookup key = none) :
    updateKey key f (insertKey key v es) = insertKey key (f v) es := by
  induction es with
  | nil => simp [insertKey, updateKey]
  | cons e es ih =>
    obtain ⟨k, u⟩ := e
    have heq : key ≠ k := by
      intro heq
      simp [heq] at h
    have htail : es.lookup key = none := by
      rwa [List.lookup_cons, beq_eq_false_iff_ne.mpr heq] at h
    unfold insertKey
    rw [if_neg heq, if_neg heq]
    split_ifs
    · have := updateKey_of_lookup_eq_none (f := f) h
      simp only [updateKey, List.map_cons] at this ⊢
      rw [this]
      simp
    · have := ih htail
      simp only [updateKey, List.map_cons] at this ⊢
      rw [this, if_neg (Ne.symm heq)]

end

section
variable {α : Type*} {l l' acc es es' : List (Text × α)}

theorem mem_foldl_insertKey {p : Text × α} (h : p ∈ l.foldl (fun acc e => insertKey e.1 e.2 acc) acc) :
    p ∈ l ∨ p ∈ acc := by
  induction l generalizing acc with
  | nil => exact .inr h
  | cons e l ih =>
    rcases ih h with hl | hacc
    · exact .inl (List.mem_cons_of_mem _ hl)
    · exact (mem_insertKey hacc).imp (fun he : p = e => he ▸ List.mem_cons_self ..) id

theorem sorted_foldl_insertKey (h : Sorted acc) :
    Sorted (l.foldl (fun acc e => insertKey e.1 e.2 acc) acc) := by
  induction l generalizing acc with
  | nil => exact h
  | cons e l ih => exact ih h.insertKey

/-- A key that no other entry shares finds its own. -/
theorem lookup_foldl_insertKey {p : Text × α} (hp : p ∈ l) (h : ∀ q ∈ l, q.1 = p.1 → q = p) :
    (l.foldl (fun acc e => insertKey e.1 e.2 acc) acc).lookup p.1 = some p.2 := by
  induction l using List.reverseRecOn with
  | nil => cases hp
  | append_singleton l e ih =>
    rw [List.foldl_append, List.foldl_cons, List.foldl_nil]
    by_cases he : e.1 = p.1
    · obtain rfl := h e (by simp) he
      exact lookup_insertKey_self
    · rw [lookup_insertKey_ne (Ne.symm he)]
      refine ih ?_ fun q hq => h q (by simp [hq])
      rcases List.mem_append.mp hp with hl | hl
      · exact hl
      · exact absurd (congrArg Prod.fst (List.mem_singleton.mp hl)).symm he

theorem lookup_foldl_insertKey_of_ne {key : Text} (h : ∀ q ∈ l, q.1 ≠ key) :
    (l.foldl (fun acc e => insertKey e.1 e.2 acc) acc).lookup key = acc.lookup key := by
  induction l generalizing acc with
  | nil => rfl
  | cons e l ih =>
    rw [List.foldl_cons, ih fun q hq => h q (List.mem_cons_of_mem _ hq),
      lookup_insertKey_ne (h e (List.mem_cons_self ..)).symm]

theorem Sorted.eq_of_key (h : Sorted es) {p q : Text × α} (hp : p ∈ es) (hq : q ∈ es) (hk : p.1 = q.1) :
    p = q := by
  have hinj : (es.map Prod.fst).Nodup := by
    refine List.Pairwise.map _ (fun d e hlt heq => ?_) h
    rw [heq] at hlt
    exact lt_irrefl _ hlt
  exact List.inj_on_of_nodup_map hinj hp hq hk

theorem Sorted.lookup_of_mem (h : Sorted es) {p : Text × α} (hp : p ∈ es) : es.lookup p.1 = some p.2 := by
  cases hl : es.lookup p.1 with
  | none =>
    have := List.lookup_eq_none_iff.mp hl p hp
    simp at this
  | some v => exact congrArg (fun q => some q.2) (h.eq_of_key (mem_of_lookup hl) hp rfl)

/-- Ordered maps with the same entries are the same. -/
theorem Sorted.ext (h : Sorted es) (h' : Sorted es') (hl : ∀ key, es.lookup key = es'.lookup key) : es = es' := by
  have hnodup : ∀ {es : List (Text × α)}, Sorted es → es.Nodup := fun hs =>
    hs.imp fun hlt heq => by
      rw [heq] at hlt
      exact lt_irrefl _ hlt
  have hmem : ∀ p, p ∈ es ↔ p ∈ es' := fun p =>
    ⟨fun hp => mem_of_lookup ((hl p.1).symm.trans (h.lookup_of_mem hp)),
      fun hp => mem_of_lookup ((hl p.1).trans (h'.lookup_of_mem hp))⟩
  exact ((List.perm_ext_iff_of_nodup (hnodup h) (hnodup h')).mpr hmem).eq_of_pairwise
    (fun p q _ _ hlt hgt => absurd hlt (lt_asymm hgt)) h h'

/-- Where no entry shares a key with another, their order does not matter. -/
theorem foldl_insertKey_congr (h : ∀ p, p ∈ l ↔ p ∈ l') (hkeys : ∀ p ∈ l, ∀ q ∈ l, q.1 = p.1 → q = p)
    (hs : Sorted acc) :
    l.foldl (fun acc e => insertKey e.1 e.2 acc) acc = l'.foldl (fun acc e => insertKey e.1 e.2 acc) acc := by
  refine (sorted_foldl_insertKey hs).ext (sorted_foldl_insertKey hs) fun key => ?_
  by_cases hk : ∃ p ∈ l, p.1 = key
  · obtain ⟨p, hp, rfl⟩ := hk
    rw [lookup_foldl_insertKey hp (hkeys p hp), lookup_foldl_insertKey ((h p).mp hp)
      fun q hq => hkeys p hp q ((h q).mpr hq)]
  · push Not at hk
    rw [lookup_foldl_insertKey_of_ne hk, lookup_foldl_insertKey_of_ne fun q hq => hk q ((h q).mpr hq)]

end

variable {key : Text} {v : Value} {es : List (Text × Value)}

/-- An entry behind all others goes to the end. -/
theorem insertKey_append (h : ∀ e ∈ es, rank e.1 < rank key) :
    insertKey key v es = es ++ [(key, v)] := by
  induction es with
  | nil => rfl
  | cons e es ih =>
    obtain ⟨k, w⟩ := e
    have hk : rank k < rank key := h (k, w) (by simp)
    have hne : key ≠ k := by
      rintro rfl
      exact lt_irrefl _ hk
    unfold insertKey
    rw [if_neg hne, if_neg hk.asymm, ih fun e he => h e (List.mem_cons_of_mem _ he)]
    rfl

theorem normalItems_eq {vs : List Value} (h : ∀ v ∈ vs, v.normal = v) : normalItems vs = vs := by
  induction vs with
  | nil => simp [normalItems]
  | cons v vs ih =>
    rw [normalItems, h v (by simp), ih fun w hw => h w (List.mem_cons_of_mem _ hw)]

theorem normalEntries_eq {done : List (Text × Value)} (hs : Sorted (done ++ es))
    (h : ∀ e ∈ es, e.2.normal = e.2) : normalEntries done es = done ++ es := by
  induction es generalizing done with
  | nil => simp [normalEntries]
  | cons e es ih =>
    obtain ⟨k, v⟩ := e
    have hlt : ∀ d ∈ done, rank d.1 < rank k := fun d hd =>
      (List.pairwise_append.mp hs).2.2 d hd (k, v) (by simp)
    have hv : v.normal = v := h (k, v) (by simp)
    rw [normalEntries, hv, insertKey_append hlt,
      ih (by simpa using hs) fun e he => h e (List.mem_cons_of_mem _ he)]
    simp

/-- A canonical value is its own value. -/
theorem Value.Canonical.normal {v : Value} (h : v.Canonical) : v.normal = v := by
  induction h with
  | null | bool | num | number | str => simp [Value.normal]
  | arr _ ih => rw [Value.normal, normalItems_eq ih]
  | obj hs _ ih => rw [Value.normal, normalEntries_eq (by simpa using hs) ih, List.nil_append]

end Winsmux.Json
