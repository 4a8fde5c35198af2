import Winsmux.Config.Content

/-!
# Written lines

How each line can be written so that it is read as itself: conditions and values between double
quotes, directives by their words, and a command as it is.
-/
namespace Winsmux.Config
open CharText

/-- No character of a kind stands at either end. -/
def FreeEnds (p : Char → Bool) (t : Chars) : Prop :=
  (∀ c ∈ t.head?, p c = false) ∧ ∀ c ∈ t.getLast?, p c = false

theorem FreeEnds.strip_eq {p : Char → Bool} {t : Chars} (h : FreeEnds p t) : (t.dropWhile p).rdropWhile p = t := by
  have hfront : t.dropWhile p = t := by
    cases t with
    | nil => rfl
    | cons c t => exact List.dropWhile_cons_of_neg (by simp [h.1 c rfl])
  rw [hfront, List.rdropWhile_eq_self_iff]
  intro hne
  simp [h.2 _ (List.getLast?_eq_some_getLast hne)]

theorem FreeEnds.trimEnd_eq {t : Chars} (h : FreeEnds isWhitespace t) : trimEnd t = t := by
  rw [trimEnd, List.rdropWhile_eq_self_iff]
  intro hne
  simp [h.2 _ (List.getLast?_eq_some_getLast hne)]

theorem FreeEnds.trim_eq {t : Chars} (h : FreeEnds isWhitespace t) : trim t = t := h.strip_eq

def isQuote (c : Char) : Bool := c = '"' || c = '\''

def quoted (t : Chars) : Chars := '"' :: (t ++ ['"'])

theorem freeEnds_quoted (t : Chars) : FreeEnds isWhitespace (quoted t) := by
  refine ⟨fun c hc => ?_, fun c hc => ?_⟩
  · obtain rfl : '"' = c := by simpa [quoted] using hc
    decide
  · obtain rfl : '"' = c := by simpa [quoted, List.getLast?_cons, List.getLast?_append] using hc
    decide

theorem trimMatches_quoted {t : Chars} (h : FreeEnds isQuote t) : trimMatches '"' (quoted t) = t := by
  have hquote : FreeEnds (fun c => decide (c = '"')) t := by
    refine ⟨fun c hc => ?_, fun c hc => ?_⟩
    · have := h.1 c hc
      simp_all [isQuote]
    · have := h.2 c hc
      simp_all [isQuote]
  cases t with
  | nil => rfl
  | cons c t =>
    have hc := hquote.1 c rfl
    have hfront : ('"' :: (c :: t ++ ['"'])).dropWhile (fun c => decide (c = '"')) = c :: t ++ ['"'] := by
      rw [List.dropWhile_cons_of_pos (by simp), List.cons_append, List.dropWhile_cons_of_neg (by simp [hc])]
    rw [trimMatches, quoted, hfront, trimEndMatches, List.rdropWhile_concat_pos _ _ _ (by simp),
      List.rdropWhile_eq_self_iff]
    intro hne
    simp [hquote.2 _ (List.getLast?_eq_some_getLast hne)]

theorem unquote_quoted {t : Chars} (h : FreeEnds isQuote t) : unquote (quoted t) = t := by
  have hquote : FreeEnds (fun c => decide (c = '\'')) t := by
    refine ⟨fun c hc => ?_, fun c hc => ?_⟩
    · have := h.1 c hc
      simp_all [isQuote]
    · have := h.2 c hc
      simp_all [isQuote]
  rw [unquote, (freeEnds_quoted t).trim_eq, trimMatches_quoted h]
  exact hquote.strip_eq

/-- A blank before the quotes does not count. -/
theorem unquote_blank_quoted {t : Chars} (h : FreeEnds isQuote t) : unquote (' ' :: quoted t) = t := by
  have hblank : trim (' ' :: quoted t) = trim (quoted t) := by
    rw [trim, trim, List.dropWhile_cons_of_pos (by decide)]
  rw [unquote, hblank]
  exact unquote_quoted h

theorem splitAtChar_front {c : Char} {front : Chars} (h : c ∉ front) (rest : Chars) :
    splitAtChar c (front ++ c :: rest) = some (front, rest) := by
  induction front with
  | nil => simp [splitAtChar]
  | cons d front ih =>
    obtain ⟨hd, hfront⟩ := List.ne_and_not_mem_of_not_mem_cons h
    simp [splitAtChar, Ne.symm hd, ih hfront]

theorem trim_assignment {name : Chars} (h : FreeEnds isWhitespace name) (value : Chars) :
    trim (name ++ '=' :: quoted value) = name ++ '=' :: quoted value := by
  refine FreeEnds.trim_eq ⟨fun c hc => ?_, fun c hc => ?_⟩
  · cases name with
    | nil =>
      obtain rfl : '=' = c := by simpa using hc
      decide
    | cons d name => exact h.1 c (by simpa using hc)
  · have hlast : (name ++ '=' :: quoted value).getLast? = some '"' := by
      have hconcat : name ++ '=' :: quoted value = name ++ '=' :: '"' :: value ++ ['"'] := by simp [quoted]
      rw [hconcat]
      exact List.getLast?_concat
    obtain rfl : '"' = c := Option.some.inj (hlast.symm.trans hc)
    decide

namespace Line

def write : Line → Chars
  | .skip => []
  | .ifLine condition => ['%', 'i', 'f', ' '] ++ quoted condition
  | .elifLine condition => ['%', 'e', 'l', 'i', 'f', ' '] ++ quoted condition
  | .elseLine => ['%', 'e', 'l', 's', 'e']
  | .endifLine => ['%', 'e', 'n', 'd', 'i', 'f']
  | .hidden name value => '%' :: (['h', 'i', 'd', 'd', 'e', 'n', ' '] ++ name ++ ['=']) ++ quoted value
  | .command l => l

/-- What is written on one line and read as it stands. -/
def Writable : Line → Prop
  | .ifLine condition | .elifLine condition => '\n' ∉ condition ∧ FreeEnds isQuote condition
  | .hidden name value =>
    '\n' ∉ name ∧ '=' ∉ name ∧ FreeEnds isWhitespace name ∧ '\n' ∉ value ∧ FreeEnds isQuote value
  | .command l => l ≠ [] ∧ '\n' ∉ l ∧ FreeEnds isWhitespace l ∧ l.head? ≠ some '%' ∧ l.getLast? ≠ some '\\'
  | .skip | .elseLine | .endifLine => True

/-- A line feed stands in no line that ends in quotes, nor white space at its ends, nor a backslash. -/
theorem one_line_quoted {c : Char} {front t : Chars} (hc : isWhitespace c = false) (hfront : '\n' ∉ c :: front)
    (ht : '\n' ∉ t) : '\n' ∉ c :: front ++ quoted t ∧ FreeEnds isWhitespace (c :: front ++ quoted t) ∧
      (c :: front ++ quoted t).getLast? ≠ some '\\' := by
  have hlast : (c :: front ++ quoted t).getLast? = some '"' := by
    have hconcat : c :: front ++ quoted t = c :: (front ++ '"' :: t) ++ ['"'] := by simp [quoted]
    rw [hconcat]
    exact List.getLast?_concat
  refine ⟨by simp_all [quoted], ⟨fun d hd => ?_, fun d hd => ?_⟩, by rw [hlast]; decide⟩
  · obtain rfl : c = d := by simpa using hd
    exact hc
  · obtain rfl : '"' = d := Option.some.inj (hlast.symm.trans hd)
    decide

variable {l : Line}

/-- A written line has no line feed, no white space at an end, and is not continued. -/
theorem Writable.one_line (h : l.Writable) :
    '\n' ∉ l.write ∧ FreeEnds isWhitespace l.write ∧ l.write.getLast? ≠ some '\\' := by
  cases l with
  | skip => exact ⟨by simp [write], ⟨by simp [write], by simp [write]⟩, by simp [write]⟩
  | ifLine condition => exact one_line_quoted (by decide) (by decide) h.1
  | elifLine condition => exact one_line_quoted (by decide) (by decide) h.1
  | elseLine => exact ⟨by decide, ⟨by simp [write, isWhitespace], by simp [write, isWhitespace]⟩, by decide⟩
  | endifLine => exact ⟨by decide, ⟨by simp [write, isWhitespace], by simp [write, isWhitespace]⟩, by decide⟩
  | hidden name value =>
    obtain ⟨hname, -, -, hvalue, -⟩ := h
    exact one_line_quoted (by decide) (by simp [hname]) hvalue
  | command t => exact ⟨h.2.1, h.2.2.1, h.2.2.2.2⟩

theorem Writable.readLine_write (h : l.Writable) : readLine l.write = l := by
  have htrim : trim l.write = l.write := h.one_line.2.1.trim_eq
  cases l with
  | skip => rfl
  | ifLine condition =>
    simp only [write] at htrim ⊢
    simp only [readLine, htrim]
    simp [startsWith, unquote_blank_quoted h.2]
  | elifLine condition =>
    simp only [write] at htrim ⊢
    simp only [readLine, htrim]
    simp [startsWith, unquote_blank_quoted h.2]
  | elseLine | endifLine =>
    simp only [write] at htrim ⊢
    simp only [readLine, htrim]
    simp [startsWith]
  | hidden name value =>
    obtain ⟨-, hname, hends, -, hvalue⟩ := h
    simp only [write] at htrim ⊢
    simp only [readLine, htrim]
    simp [startsWith, trim_assignment hends, splitAtChar_front hname, hends.trim_eq, unquote_quoted hvalue]
  | command t =>
    obtain ⟨hne, -, -, hhead, -⟩ := h
    simp only [write] at htrim
    simp [readLine, htrim, write, hne, hhead]

end Line

def writeLines (ls : List Line) : Chars := ls.flatMap fun l => l.write ++ ['\n']

theorem linesFrom_line (current : Chars) {t : Chars} (ht : '\n' ∉ t) (rest : Chars) :
    linesFrom current (t ++ '\n' :: rest) =
      (if (current ++ t).getLast? = some '\r' then (current ++ t).dropLast else current ++ t) :: lines rest := by
  induction t generalizing current with
  | nil => simp [linesFrom, lines]
  | cons c t ih =>
    obtain ⟨hc, ht⟩ := List.ne_and_not_mem_of_not_mem_cons ht
    rw [List.cons_append, linesFrom, if_neg (Ne.symm hc), ih _ ht, List.append_assoc, List.singleton_append]

theorem lines_line {t : Chars} (ht : '\n' ∉ t) (hlast : FreeEnds isWhitespace t) (rest : Chars) :
    lines (t ++ '\n' :: rest) = t :: lines rest := by
  have hcr : t.getLast? ≠ some '\r' := fun h => absurd (hlast.2 _ h) (by decide)
  rw [lines, linesFrom_line [] ht, List.nil_append, if_neg hcr]

/-- What is written line by line is read line by line. -/
theorem configLines_writeLines {ls : List Line} (h : ∀ l ∈ ls, l.Writable) : configLines (writeLines ls) = ls := by
  induction ls with
  | nil => rfl
  | cons l ls ih =>
    obtain ⟨hl, hls⟩ := List.forall_mem_cons.1 h
    obtain ⟨hline, hends, hlast⟩ := hl.one_line
    have hfirst : lines (writeLines (l :: ls)) = l.write :: lines (writeLines ls) := by
      rw [writeLines, List.flatMap_cons, List.append_assoc, List.singleton_append]
      exact lines_line hline hends _
    have hread : trimEnd l.write = l.write := hends.trimEnd_eq
    have ih := ih hls
    simp only [configLines] at ih ⊢
    rw [hfirst, joinContinuations]
    simp [hread, hlast, ih, hl.readLine_write]

end Winsmux.Config
