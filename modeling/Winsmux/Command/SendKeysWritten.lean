import Winsmux.Command.SendKeys

/-!
# What sending keys delivers

Between the connection and the server the arguments are one text, so only what white space keeps
apart stays apart. The arguments come through as they are if they are words, none of them begins
with a dash, and a blank stands between two neighbours that are text.
-/
namespace Winsmux.Command
open CharText

variable {upper : Char → Chars}

/-- Words that are the name of a key, with one character behind a modifier. -/
def isKeyName (upper : Char → Chars) (key : Chars) : Bool :=
  let keyUpper := toUppercase upper key
  key.all (fun c => !isWhitespace c) &&
    ((namedKey keyUpper).isSome || (parseModifiedSpecialKey upper keyUpper).isSome ||
      startsWith keyUpper "C-M-" && key.length = 5 || startsWith keyUpper "C-" && keyUpper.length = 3 ||
      startsWith keyUpper "M-" && key.length = 3)

/-- The sequence of a key. -/
def keySequence (upper : Char → Chars) (key : Chars) : Chars := ((keyWrites upper key).getD []).flatten

/-- What an argument is to be written as. -/
def piece (upper : Char → Chars) (a : Chars) : Chars :=
  if isKeyName upper a then keySequence upper a else a

theorem startsWith_iff {t : Chars} {s : String} : startsWith t s = true ↔ s.toList <+: t :=
  List.isPrefixOf_iff_prefix

/-- A text that may be written for a key. -/
structure IsSequence (seq : Chars) : Prop where
  head : ∃ c t, seq = c :: t ∧ (c.toNat < 0x20 ∨ c = ' ' ∨ c = '\x7f')
  blank : ∀ c ∈ seq, isWhitespace c = true → seq = [c] ∨ seq = [esc, c]

/-- An escape character and no white space. -/
def IsEscape (seq : Chars) : Prop := ∃ t, seq = esc :: t ∧ ∀ c ∈ t, isWhitespace c = false

theorem IsEscape.isSequence {seq : Chars} (h : IsEscape seq) : IsSequence seq := by
  obtain ⟨t, rfl, ht⟩ := h
  refine ⟨⟨esc, t, rfl, .inl (by decide)⟩, fun c hc hblank => ?_⟩
  rcases List.mem_cons.1 hc with rfl | hc
  · exact absurd hblank (by decide)
  · rw [ht c hc] at hblank
    cases hblank

theorem IsEscape.ne_blank {seq : Chars} (h : IsEscape seq) : seq ≠ [' '] := by
  obtain ⟨t, rfl, -⟩ := h
  exact fun h => absurd (List.cons.inj h).1 (by decide)

theorem isSequence_pair (c : Char) : IsSequence [esc, c] := by
  refine ⟨⟨esc, [c], rfl, .inl (by decide)⟩, fun d hd hblank => ?_⟩
  rcases List.mem_pair.1 hd with rfl | rfl
  · exact absurd hblank (by decide)
  · exact .inr rfl

theorem control_lt (c : Char) : (control c).toNat < 0x20 := by
  have hall : ∀ n < 32, (Char.ofNat n).toNat < 0x20 := by decide
  exact hall _ (Nat.mod_lt _ (by decide))

theorem isSequence_control (c : Char) : IsSequence [control c] :=
  ⟨⟨control c, [], rfl, .inl (control_lt c)⟩, fun d hd _ => .inl (by rw [List.mem_singleton.1 hd])⟩

theorem isSequence_named : ∀ k ∈ namedKeys, IsSequence k.2 := by
  have hall : ∀ k ∈ namedKeys, (k.2.head?.any fun c => c.toNat < 0x20 || c = ' ' || c = '\x7f') = true ∧
      (k.2.all fun c => !isWhitespace c || k.2 = [c] || k.2 = [esc, c]) = true := by decide
  intro k hk
  obtain ⟨hhead, hblank⟩ := hall k hk
  refine ⟨?_, fun c hc hc' => by simpa [hc'] using List.all_eq_true.1 hblank c hc⟩
  match hseq : k.2 with
  | [] => simp [hseq] at hhead
  | c :: t => exact ⟨c, t, rfl, by simpa [hseq, or_assoc] using hhead⟩

theorem not_isWhitespace_decimal (n : ℕ) : ∀ c ∈ decimal n, isWhitespace c = false := by
  intro c hc
  have hdigit : c.isDigit = true := Nat.isDigit_of_mem_toDigits (by decide) (by decide) hc
  simp only [Char.isDigit, Bool.and_eq_true, decide_eq_true_eq] at hdigit
  have hlo : 48 ≤ c.toNat := hdigit.1
  have hhi : c.toNat ≤ 57 := hdigit.2
  simp [isWhitespace]
  omega

theorem any_isWhitespace_decimal (n : ℕ) : (decimal n).any isWhitespace = false :=
  List.any_eq_false.2 fun c hc => by simp [not_isWhitespace_decimal n c hc]

theorem isEscape_csi {s : String} {n : ℕ} {t : Chars} (hs : s.toList.any isWhitespace = false)
    (ht : t.any isWhitespace = false) : IsEscape (csi s ++ decimal n ++ t) := by
  have hseq : csi s ++ decimal n ++ t = esc :: '[' :: (s.toList ++ (decimal n ++ t)) := by simp [csi]
  have hany : (s.toList ++ (decimal n ++ t)).any isWhitespace = false := by
    rw [List.any_append, List.any_append, hs, any_isWhitespace_decimal, ht]
    rfl
  rw [hseq]
  refine ⟨_, rfl, List.forall_mem_cons.2 ⟨rfl, fun c hc => ?_⟩⟩
  exact Bool.eq_false_of_not_eq_true (List.any_eq_false.1 hany c hc)

theorem isEscape_encodeFkey {n m : ℕ} {seq : Chars} (h : encodeFkey n m = some seq) :
    IsEscape seq := by
  have hletter (c : Char) (hc : isWhitespace c = false) : IsEscape (csi "1;" ++ decimal m ++ [c]) :=
    isEscape_csi (by decide) (by simpa using hc)
  have htilde (code : ℕ) : IsEscape (csi "" ++ decimal code ++ ';' :: decimal m ++ ['~']) := by
    rw [List.append_assoc]
    refine isEscape_csi (by decide) ?_
    rw [List.cons_append, List.any_cons, List.any_append, any_isWhitespace_decimal]
    rfl
  unfold encodeFkey at h
  split at h <;> cases h
  all_goals first | exact hletter _ rfl | exact htilde _

theorem isEscape_modified {s seq : Chars} (h : parseModifiedSpecialKey upper s = some seq) :
    IsEscape seq := by
  have hkeys : ∀ k ∈ modifiedKeys, k.2.1.toList.any isWhitespace = false ∧
      isWhitespace k.2.2 = false := by decide
  unfold parseModifiedSpecialKey at h
  dsimp only at h
  split at h
  · cases h
  · split at h
    · cases h
      exact isEscape_csi (by decide) (by decide)
    · split at h
      · next hfind =>
        cases h
        obtain ⟨hfront, hlast⟩ := hkeys _ (List.mem_of_find?_eq_some hfind)
        exact isEscape_csi hfront (by simpa using hlast)
      · split at h
        · obtain ⟨n, -, hn⟩ := Option.bind_eq_some_iff.1 h
          exact isEscape_encodeFkey hn
        · cases h

/-- What is written for a word that is taken for a key; a blank alone only for words in front of
which no blank is written. -/
theorem isSequence_keyWrites {key seq : Chars} {writes : List Chars}
    (h : keyWrites upper key = some writes) (hs : seq ∈ writes) :
    IsSequence seq ∧ (seq = [' '] → isSpecial upper key = true) := by
  have hcontrol (c : Char) : [control c] ≠ [' '] := by
    intro hc
    have hlt := control_lt c
    rw [(List.cons.inj hc).1] at hlt
    exact absurd hlt (by decide)
  unfold keyWrites at h
  dsimp only at h
  split at h
  · next seq' hnamed =>
    cases h
    obtain rfl := List.mem_singleton.1 hs
    refine ⟨?_, fun _ => by simp [isSpecial, hnamed]⟩
    obtain ⟨k, hk, rfl⟩ := Option.map_eq_some_iff.1 hnamed
    exact isSequence_named k (List.mem_of_find?_eq_some hk)
  · split at h
    · next seq' hmodified =>
      cases h
      obtain rfl := List.mem_singleton.1 hs
      have hescape := isEscape_modified hmodified
      exact ⟨hescape.isSequence, fun hblank => absurd hblank hescape.ne_blank⟩
    · split at h
      · cases h
        obtain ⟨c, -, rfl⟩ := Option.map_eq_some_iff.1 (Option.mem_toList.1 hs)
        exact ⟨isSequence_pair _, nofun⟩
      · split at h
        · cases h
          obtain ⟨c, -, rfl⟩ := Option.map_eq_some_iff.1 (Option.mem_toList.1 hs)
          exact ⟨isSequence_control c, fun hblank => absurd hblank (hcontrol c)⟩
        · split at h
          · cases h
            obtain ⟨c, -, rfl⟩ := Option.map_eq_some_iff.1 (Option.mem_toList.1 hs)
            exact ⟨isSequence_pair _, nofun⟩
          · cases h

/-- A key is written as one text. -/
theorem keyWrites_of_isKeyName {key : Chars} (h : isKeyName upper key = true) :
    keyWrites upper key = some [keySequence upper key] := by
  have hone (seq : Chars) (hseq : keyWrites upper key = some [seq]) :
      keyWrites upper key = some [keySequence upper key] := by
    rw [keySequence, hseq]
    simp
  unfold isKeyName at h
  dsimp only at h
  cases hnamed : namedKey (toUppercase upper key) with
  | some seq => exact hone seq (by simp [keyWrites, hnamed])
  | none =>
    cases hmodified : parseModifiedSpecialKey upper (toUppercase upper key) with
    | some seq => exact hone seq (by simp [keyWrites, hnamed, hmodified])
    | none =>
      simp only [hnamed, hmodified, Option.isSome_none, Bool.or_assoc, Bool.false_or,
        Bool.and_eq_true, Bool.or_eq_true, decide_eq_true_eq] at h
      obtain ⟨-, ⟨hstart, hlen⟩ | ⟨hstart, hlen⟩ | ⟨hstart, hlen⟩⟩ := h
      · refine hone [esc, control (key.get ⟨4, by omega⟩)] ?_
        simp [keyWrites, hnamed, hmodified, hstart, hlen]
      · have hshort (s : String) (hs : 3 < s.toList.length) : startsWith (toUppercase upper key) s = false := by
          rw [← Bool.not_eq_true, startsWith_iff]
          exact fun hpre => absurd hpre.length_le (by omega)
        refine hone [control ((toUppercase upper key).get ⟨2, by omega⟩)] ?_
        simp [keyWrites, hnamed, hmodified, hstart, hlen, hshort "C-M-" (by decide),
          hshort "C-m-" (by decide)]
      · have hother (s : String) (hs : s.toList.head? = some 'C') :
            startsWith (toUppercase upper key) s = false := by
          obtain ⟨t, ht⟩ := startsWith_iff.1 hstart
          obtain ⟨r, hr⟩ := List.head?_eq_some_iff.1 hs
          rw [startsWith, hr, ← ht]
          rfl
        refine hone [esc, key.get ⟨2, by omega⟩] ?_
        simp [keyWrites, hnamed, hmodified, hstart, hlen, hother "C-M-" (by decide),
          hother "C-m-" (by decide), hother "C-" (by decide)]

/-- A word that begins with an ASCII character other than a letter is text. -/
theorem keyWrites_of_head {c : Char} {t : Chars} (hc : c.toNat < 0x80) (hletter : c.isAlpha = false) :
    keyWrites upper (c :: t) = none := by
  have hall : ∀ n < 128, (Char.ofNat n).isAlpha = false → (Char.ofNat n).toUpper = Char.ofNat n := by
    decide
  have hupper : c.toUpper = c := Char.ofNat_toNat c ▸ hall c.toNat hc (by rwa [Char.ofNat_toNat])
  have hne (x : Char) (hx : x.isAlpha = true) : c ≠ x := by
    rintro rfl
    rw [hletter] at hx
    cases hx
  have hC : c ≠ 'C' := hne 'C' rfl
  have hM : c ≠ 'M' := hne 'M' rfl
  have hS : c ≠ 'S' := hne 'S' rfl
  have hnames : ∀ k ∈ namedKeys, k.1.toList.head?.all Char.isAlpha = true := by decide
  have hhead (t : Chars) : toUppercase upper (c :: t) = c :: toUppercase upper t := by
    simp [toUppercase, hc, hupper]
  have hnamed (t : Chars) : namedKey (c :: t) = none := by
    rw [namedKey, Option.map_eq_none_iff, List.find?_eq_none]
    intro k hk heq
    have halpha := hnames k hk
    rw [of_decide_eq_true heq, List.head?_cons, Option.all_some, hletter] at halpha
    cases halpha
  have hmodified (t : Chars) : parseModifiedSpecialKey upper (c :: t) = none := by
    have hbits : modifiers 0 (c :: toUppercase upper t) = (0, c :: toUppercase upper t) := by
      rw [modifiers.eq_4]
      all_goals simp_all
    simp [parseModifiedSpecialKey, hhead, hbits]
  have hstart (t : Chars) (x : Char) (s : String) (hx : s.toList.head? = some x) (hne : c ≠ x) :
      startsWith (c :: t) s = false := by
    obtain ⟨r, hr⟩ := List.head?_eq_some_iff.1 hx
    rw [← Bool.not_eq_true, startsWith_iff, hr]
    exact fun hpre => hne (List.cons_prefix_cons.1 hpre).1.symm
  simp [keyWrites, hhead, hnamed, hmodified, hstart _ 'C' "C-M-" (by decide) hC,
    hstart _ 'C' "C-m-" (by decide) hC, hstart _ 'C' "C-" (by decide) hC,
    hstart _ 'M' "M-" (by decide) hM]

theorem isKeyName_of_head {c : Char} {t : Chars} (hc : c.toNat < 0x80) (hletter : c.isAlpha = false) :
    isKeyName upper (c :: t) = false := by
  rw [← Bool.not_eq_true]
  intro h
  have hkey := keyWrites_of_isKeyName h
  rw [keyWrites_of_head hc hletter] at hkey
  cases hkey

/-- The first character of a sequence is none a word that is taken for a key begins with. -/
theorem IsSequence.isText {seq : Chars} (h : IsSequence seq) :
    keyWrites upper seq = none ∧ seq.head? ≠ some '-' := by
  obtain ⟨c, t, rfl, hc⟩ := h.head
  have hall : ∀ n < 128, n < 0x20 ∨ Char.ofNat n = ' ' ∨ Char.ofNat n = '\x7f' →
      (Char.ofNat n).isAlpha = false ∧ Char.ofNat n ≠ '-' := by decide
  have hlt : c.toNat < 128 := by
    rcases hc with h | rfl | rfl
    · omega
    · decide
    · decide
  obtain ⟨hletter, hdash⟩ :=
    Char.ofNat_toNat c ▸ hall c.toNat hlt (by rwa [Char.ofNat_toNat])
  exact ⟨keyWrites_of_head hlt hletter, fun h => hdash (Option.some.inj h)⟩

/-- A word that comes through: no option, and a key only by its name. -/
structure Sendable (upper : Char → Chars) (w : Chars) : Prop where
  word : IsWord w
  noDash : w.head? ≠ some '-'
  key : keyWrites upper w = none ∨ isKeyName upper w = true

/-- Words with a blank where one is written between them. -/
def spaced (upper : Char → Chars) : List Chars → List Chars
  | [] => []
  | w :: rest =>
    w :: ((if (keyWrites upper w).isNone then blankBefore upper rest.head? else []) ++
      spaced upper rest)

theorem mem_blankBefore {next : Option Chars} {t : Chars} (h : t ∈ blankBefore upper next) : t = [' '] := by
  unfold blankBefore at h
  split at h
  · split at h
    · cases h
    · exact List.mem_singleton.1 h
  · cases h

/-- What is written is a word, the blank between two, or the sequence of a key. -/
theorem mem_sendWords {ws : List Chars} {t : Chars} (h : t ∈ sendWords upper ws) :
    t ∈ ws ∧ keyWrites upper t = none ∨ t = [' '] ∨ IsSequence t := by
  induction ws with
  | nil => cases h
  | cons w ws ih =>
    have hrest (h : t ∈ sendWords upper ws) :
        t ∈ w :: ws ∧ keyWrites upper t = none ∨ t = [' '] ∨ IsSequence t :=
      (ih h).imp_left fun h => ⟨List.mem_cons_of_mem _ h.1, h.2⟩
    rw [sendWords] at h
    split at h
    · next writes hkey =>
      rcases List.mem_append.1 h with h | h
      · exact .inr (.inr (isSequence_keyWrites hkey h).1)
      · exact hrest h
    · next hkey =>
      rcases List.mem_cons.1 h with rfl | h
      · exact .inl ⟨List.mem_cons_self, hkey⟩
      · rcases List.mem_append.1 h with h | h
        · exact .inr (.inl (mem_blankBefore h))
        · exact hrest h

theorem mem_spaced {ws : List Chars} {t : Chars} (h : t ∈ spaced upper ws) : t ∈ ws ∨ t = [' '] := by
  induction ws with
  | nil => cases h
  | cons w ws ih =>
    rw [spaced] at h
    rcases List.mem_cons.1 h with rfl | h
    · exact .inl List.mem_cons_self
    · rcases List.mem_append.1 h with h | h
      · split at h
        · exact .inr (mem_blankBefore h)
        · cases h
      · exact (ih h).imp_left (List.mem_cons_of_mem _)

theorem piece_blank : piece upper [' '] = [' '] := by
  rw [piece, isKeyName_of_head (by decide) (by decide)]
  rfl

theorem piece_text {w : Chars} (h : keyWrites upper w = none) : piece upper w = w := by
  rw [piece, if_neg]
  intro hkey
  rw [keyWrites_of_isKeyName hkey] at h
  cases h

theorem splitWhitespace_spaced {ws : List Chars} (hws : ∀ w ∈ ws, IsWord w) :
    (spaced upper ws).flatMap splitWhitespace = ws := by
  induction ws with
  | nil => rfl
  | cons w ws ih =>
    obtain ⟨hw, hws⟩ := List.forall_mem_cons.1 hws
    have hblank (next : Option Chars) : (blankBefore upper next).flatMap splitWhitespace = [] := by
      rw [List.flatMap_eq_nil_iff]
      intro t ht
      rw [mem_blankBefore ht]
      rfl
    rw [spaced, List.flatMap_cons, List.flatMap_append, splitWhitespace_word hw, ih hws]
    split
    · rw [hblank]
      rfl
    · rfl

/-- Words with their blanks are written as they are meant. -/
theorem sendWords_spaced {ws : List Chars} (hws : ∀ w ∈ ws, Sendable upper w) :
    sendWords upper ws = (spaced upper ws).map (piece upper) := by
  induction ws with
  | nil => rfl
  | cons w ws ih =>
    obtain ⟨hw, hws⟩ := List.forall_mem_cons.1 hws
    have hblank (next : Option Chars) :
        (blankBefore upper next).map (piece upper) = blankBefore upper next := by
      unfold blankBefore
      split
      · split
        · rfl
        · rw [List.map_singleton, piece_blank]
      · rfl
    rw [sendWords, spaced, ih hws]
    rcases hw.key with htext | hkey
    · simp [htext, piece_text htext, hblank]
    · simp [keyWrites_of_isKeyName hkey, piece, hkey]

/-- White space alone, or an escape character and a white space character. -/
def Idle (a : Chars) : Prop :=
  a ≠ [] ∧ (∀ c ∈ a, isWhitespace c = true) ∨ ∃ c, isWhitespace c = true ∧ a = [esc, c]

/-- White space is in no name of a key. -/
theorem piece_of_blank {a : Chars} {c : Char} (hc : c ∈ a) (hblank : isWhitespace c = true) :
    piece upper a = a := by
  rw [piece, if_neg]
  intro hkey
  have hall := (Bool.and_eq_true_iff.1 hkey).1
  rw [List.all_eq_true] at hall
  simpa [hblank] using hall c hc

theorem Idle.piece_eq {a : Chars} (h : Idle a) : piece upper a = a := by
  rcases h with ⟨hne, hall⟩ | ⟨c, hc, rfl⟩
  · obtain ⟨c, t, rfl⟩ := List.exists_cons_of_ne_nil hne
    exact piece_of_blank List.mem_cons_self (hall c List.mem_cons_self)
  · exact piece_of_blank (by simp) hc

theorem splitWhitespace_esc {c : Char} (hc : isWhitespace c = true) :
    splitWhitespace [esc, c] = [[esc]] := by
  have hesc : isWhitespace esc = false := by decide
  simp [splitWhitespace, wordsFrom, hc, hesc]

theorem splitWhitespace_blank_cons (args : List Chars) :
    ([' '] :: args).flatMap splitWhitespace = args.flatMap splitWhitespace := rfl

theorem keyWrites_esc : keyWrites upper [esc] = none := keyWrites_of_head (by decide) (by decide)

section Written
variable {kept args : List Chars}
  (h : sendWords upper (kept.flatMap splitWhitespace) = args.map (piece upper))
include h

theorem idle_of_blank {a : Chars} (ha : a ∈ args) {c : Char} (hc : c ∈ a)
    (hblank : isWhitespace c = true) : Idle a := by
  have hmem : a ∈ sendWords upper (kept.flatMap splitWhitespace) := by
    rw [h]
    exact List.mem_map.2 ⟨a, ha, piece_of_blank hc hblank⟩
  rcases mem_sendWords hmem with ⟨hword, -⟩ | rfl | hseq
  · obtain ⟨k, -, hk⟩ := List.mem_flatMap.1 hword
    rw [(isWord_of_mem_splitWhitespace hk).2 c hc] at hblank
    cases hblank
  · exact .inl ⟨by simp, List.forall_mem_singleton.2 rfl⟩
  · rcases hseq.blank c hc hblank with rfl | rfl
    · exact .inl ⟨by simp, by simpa using hblank⟩
    · exact .inr ⟨c, hblank, rfl⟩

variable (hkept : ∀ k ∈ kept, k ∈ args ∧ k.head? ≠ some '-')
include hkept

/-- If every argument is written as one text, each can come through or has no word of its own. -/
theorem sendable_or_idle {a : Chars} (ha : a ∈ args) : Sendable upper a ∨ Idle a := by
  by_cases hblank : ∃ c ∈ a, isWhitespace c = true
  · obtain ⟨c, hc, hblank⟩ := hblank
    exact .inr (idle_of_blank h ha hc hblank)
  have hspace : ∀ c ∈ a, isWhitespace c = false := fun c hc => by
    rw [← Bool.not_eq_true]
    exact fun hb => hblank ⟨c, hc, hb⟩
  left
  by_cases hkey : isKeyName upper a = true
  · refine ⟨⟨?_, hspace⟩, ?_, .inr hkey⟩
    · rintro rfl
      have hwrites := keyWrites_of_isKeyName hkey
      cases hwrites
    · intro hdash
      obtain ⟨t, rfl⟩ := List.head?_eq_some_iff.1 hdash
      rw [isKeyName_of_head (by decide) (by decide)] at hkey
      cases hkey
  have hmem : a ∈ sendWords upper (kept.flatMap splitWhitespace) := by
    rw [h]
    exact List.mem_map.2 ⟨a, ha, by rw [piece, if_neg hkey]⟩
  rcases mem_sendWords hmem with ⟨hword, htext⟩ | rfl | hseq
  · obtain ⟨k, hk, hak⟩ := List.mem_flatMap.1 hword
    refine ⟨isWord_of_mem_splitWhitespace hak, fun hdash => ?_, .inl htext⟩
    obtain ⟨hkargs, hkdash⟩ := hkept k hk
    by_cases hkblank : ∃ c ∈ k, isWhitespace c = true
    · obtain ⟨c, hc, hkblank⟩ := hkblank
      rcases idle_of_blank h hkargs hc hkblank with ⟨-, hall⟩ | ⟨d, hd, rfl⟩
      · rw [splitWhitespace_blank hall] at hak
        cases hak
      · rw [splitWhitespace_esc hd, List.mem_singleton] at hak
        rw [hak] at hdash
        exact absurd hdash (by decide)
    · have hkword : IsWord k := by
        refine ⟨?_, fun c hc => ?_⟩
        · rintro rfl
          cases hak
        · rw [← Bool.not_eq_true]
          exact fun hb => hkblank ⟨c, hc, hb⟩
      rw [splitWhitespace_word hkword, List.mem_singleton] at hak
      exact hkdash (hak ▸ hdash)
  · exact absurd (hspace ' ' (by simp)) (by decide)
  · obtain ⟨htext, hdash⟩ := @IsSequence.isText upper _ hseq
    obtain ⟨c, t, rfl, -⟩ := hseq.head
    exact ⟨⟨by simp, hspace⟩, hdash, .inl htext⟩

end Written

/-- A word that is text, in front of an argument that is not a blank: what is ahead stays ahead. -/
theorem ahead_of_text {w q : Chars} {next : Option Chars} {S X R : List Chars} (hq : q ≠ [' '])
    (hX : X ≠ []) (h : w :: (blankBefore upper next ++ S) = X ++ q :: R) : ∃ Y, Y ≠ [] ∧ S = Y ++ R := by
  obtain ⟨x, X, rfl⟩ := List.exists_cons_of_ne_nil hX
  rw [List.cons_append] at h
  have hrest := (List.cons.inj h).2
  have hahead : X ++ q :: R = (X ++ [q]) ++ R := by simp
  unfold blankBefore at hrest
  split at hrest
  · split at hrest
    · exact ⟨X ++ [q], by simp, by rw [← hahead]; exact hrest⟩
    · cases X with
      | nil => exact absurd (List.cons.inj hrest).1.symm hq
      | cons x X =>
        refine ⟨X ++ [q], by simp, ?_⟩
        rw [List.append_assoc, List.singleton_append]
        exact (List.cons.inj hrest).2
  · exact ⟨X ++ [q], by simp, by rw [← hahead]; exact hrest⟩

/-- What is written never runs behind the arguments by something that was to be written before. -/
theorem not_ahead {args : List Chars} (hargs : ∀ a ∈ args, Sendable upper a ∨ Idle a)
    {X : List Chars} (hX : X ≠ []) :
    sendWords upper (args.flatMap splitWhitespace) ≠ X ++ args.map (piece upper) := by
  induction args generalizing X with
  | nil =>
    intro h
    rw [List.map_nil, List.append_nil] at h
    exact hX h.symm
  | cons a args ih =>
    obtain ⟨ha, hargs⟩ := List.forall_mem_cons.1 hargs
    have hnext {Y : List Chars} (hY : Y ≠ [])
        (h : sendWords upper (args.flatMap splitWhitespace) = Y ++ args.map (piece upper)) : False :=
      ih hargs hY h
    intro h
    rw [List.flatMap_cons, List.map_cons] at h
    rcases ha with ha | ha
    · rw [splitWhitespace_word ha.word, List.singleton_append, sendWords] at h
      rcases ha.key with htext | hkey
      · rw [htext, piece_text htext] at h
        have hblank : a ≠ [' '] := by
          rintro rfl
          exact absurd (ha.word.2 ' ' (by simp)) (by decide)
        obtain ⟨Y, hY, hrest⟩ := ahead_of_text hblank hX h
        exact hnext hY hrest
      · rw [keyWrites_of_isKeyName hkey] at h
        obtain ⟨x, X, rfl⟩ := List.exists_cons_of_ne_nil hX
        refine hnext (Y := X ++ [piece upper a]) (by simp) ?_
        rw [List.append_assoc, List.singleton_append]
        exact (List.cons.inj h).2
    · rw [ha.piece_eq] at h
      rcases ha with ⟨-, hall⟩ | ⟨c, hc, rfl⟩
      · rw [splitWhitespace_blank hall, List.nil_append] at h
        refine hnext (Y := X ++ [a]) (by simp) ?_
        rw [List.append_assoc, List.singleton_append]
        exact h
      · rw [splitWhitespace_esc hc, List.singleton_append, sendWords, keyWrites_esc] at h
        obtain ⟨Y, hY, hrest⟩ := ahead_of_text (by simp) hX h
        exact hnext hY hrest

/-- Behind a word that is text, a blank is written only if it is the next argument. -/
theorem eq_or_blank {rest : List Chars} (hrest : ∀ a ∈ rest, Sendable upper a ∨ Idle a)
    (h : blankBefore upper (rest.flatMap splitWhitespace).head? ++
      sendWords upper (rest.flatMap splitWhitespace) = rest.map (piece upper)) :
    blankBefore upper (rest.flatMap splitWhitespace).head? = [] ∧
        sendWords upper (rest.flatMap splitWhitespace) = rest.map (piece upper) ∨
      ∃ r, rest = [' '] :: r ∧
        blankBefore upper (rest.flatMap splitWhitespace).head? = [[' ']] ∧
          sendWords upper (r.flatMap splitWhitespace) = r.map (piece upper) := by
  match hblank : blankBefore upper (rest.flatMap splitWhitespace).head? with
  | [] => exact .inl ⟨rfl, by rwa [hblank] at h⟩
  | [t] =>
    obtain rfl : t = [' '] := mem_blankBefore (hblank ▸ List.mem_singleton_self t)
    rw [hblank] at h
    match rest with
    | [] => cases h
    | b :: r =>
      obtain ⟨hpiece, h⟩ := List.cons.inj h
      have hb : b = [' '] := by
        rcases (List.forall_mem_cons.1 hrest).1 with hb | hb
        · rw [List.flatMap_cons, splitWhitespace_word hb.word] at hblank
          rcases hb.key with htext | hkey
          · rw [hpiece, piece_text htext]
          · -- a key written as a blank is in the list of those that go without one before them
            have hwrites := keyWrites_of_isKeyName hkey
            have hspecial : isSpecial upper b = true := by
              refine (isSequence_keyWrites hwrites (List.mem_singleton_self _)).2 ?_
              rw [hpiece, piece, if_pos hkey]
            simp [blankBefore, hspecial] at hblank
        · rw [hpiece, hb.piece_eq]
      subst hb
      refine .inr ⟨r, rfl, rfl, ?_⟩
      rwa [splitWhitespace_blank_cons] at h
  | t :: u :: ts =>
    unfold blankBefore at hblank
    split at hblank
    · split at hblank <;> cases hblank
    · cases hblank

/-- Arguments that are each written as one text are words with the blanks that are written between
them. -/
theorem eq_spaced {args : List Chars} (hargs : ∀ a ∈ args, Sendable upper a ∨ Idle a)
    (h : sendWords upper (args.flatMap splitWhitespace) = args.map (piece upper)) :
    (∀ w ∈ args.flatMap splitWhitespace, Sendable upper w) ∧
      args = spaced upper (args.flatMap splitWhitespace) := by
  induction hn : args.length using Nat.strongRecOn generalizing args with
  | ind n ih =>
  match args with
  | [] => exact ⟨nofun, rfl⟩
  | a :: rest =>
    obtain ⟨ha, hrest⟩ := List.forall_mem_cons.1 hargs
    rw [List.flatMap_cons, List.map_cons] at h
    rcases ha with ha | ha
    · rw [splitWhitespace_word ha.word, List.singleton_append, sendWords] at h
      rw [List.flatMap_cons, splitWhitespace_word ha.word, List.singleton_append, spaced,
        List.forall_mem_cons]
      rcases ha.key with htext | hkey
      · rw [htext, piece_text htext] at h
        rw [htext, Option.isNone_none, if_pos rfl]
        rcases eq_or_blank hrest (List.cons.inj h).2 with ⟨hblank, h⟩ | ⟨r, rfl, hblank, h⟩
        · obtain ⟨hwords, heq⟩ := ih rest.length (by rw [← hn]; simp) hrest h rfl
          exact ⟨⟨ha, hwords⟩, by rw [hblank, List.nil_append, ← heq]⟩
        · obtain ⟨hwords, heq⟩ :=
            ih r.length (by rw [← hn]; simp) (List.forall_mem_cons.1 hrest).2 h rfl
          rw [hblank, splitWhitespace_blank_cons]
          exact ⟨⟨ha, hwords⟩, by rw [List.singleton_append, ← heq]⟩
      · rw [keyWrites_of_isKeyName hkey] at h ⊢
        obtain ⟨hwords, heq⟩ := ih rest.length (by rw [← hn]; simp) hrest (List.cons.inj h).2 rfl
        exact ⟨⟨ha, hwords⟩, by rw [← heq]; rfl⟩
    · rw [ha.piece_eq] at h
      rcases ha with ⟨-, hall⟩ | ⟨c, hc, rfl⟩
      · rw [splitWhitespace_blank hall, List.nil_append] at h
        exact absurd h (not_ahead hrest (X := [a]) (by simp))
      · rw [splitWhitespace_esc hc, List.singleton_append, sendWords, keyWrites_esc] at h
        exact absurd (List.cons.inj h).1 (by simp)

end Winsmux.Command
