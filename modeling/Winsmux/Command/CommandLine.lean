import Winsmux.CharText

/-!
# The command line

A command goes over the control connection as one line. `quote_arg` puts an argument between
double quotes and `parse_command_line` takes the line apart again; an argument without a
character leaves no trace in what it reads.
-/
namespace Winsmux.Command
open CharText

/-- `quote_arg` -/
def quoteArg (s : Chars) : Chars :=
  '"' :: (replaceChar '"' ['\\', '"'] (replaceChar '\\' ['\\', '\\'] s) ++ ['"'])

/-- Arguments with a blank between any two. -/
def joinArgs (args : List Chars) : Chars := [' '].intercalate args

/-- What `parse_command_line` keeps while it reads. -/
structure Reader where
  args : List Chars
  current : Chars
  inDoubleQuotes : Bool
  inSingleQuotes : Bool
  deriving DecidableEq

namespace Reader

def start : Reader := ⟨[], [], false, false⟩

def push (r : Reader) (c : Char) : Reader := { r with current := r.current ++ [c] }

/-- The end of an argument; one without a character is none. -/
def finish (r : Reader) : Reader :=
  if r.current = [] then r else { r with args := r.args ++ [r.current], current := [] }

@[grind =] def read (r : Reader) : Chars → Reader
  | [] => r
  | c :: cs =>
    if r.inSingleQuotes then
      if c = '\'' then read { r with inSingleQuotes := false } cs else read (r.push c) cs
    else if c = '\\' ∧ r.inDoubleQuotes then
      -- a backslash stands for itself unless a quote or a backslash follows
      match cs with
      | '"' :: cs => read (r.push '"') cs
      | '\\' :: cs => read (r.push '\\') cs
      | cs => read (r.push c) cs
    else if c = '"' then read { r with inDoubleQuotes := !r.inDoubleQuotes } cs
    else if c = '\'' ∧ !r.inDoubleQuotes then read { r with inSingleQuotes := true } cs
    else if isWhitespace c ∧ !r.inDoubleQuotes then read r.finish cs
    else read (r.push c) cs

end Reader

/-- `parse_command_line` -/
def parseCommandLine (line : Chars) : List Chars := ((Reader.start.read line).finish).args

/-- How one character stands between double quotes. -/
def escapeChar (c : Char) : Chars := if c = '\\' ∨ c = '"' then ['\\', c] else [c]

theorem quoteArg_eq (s : Chars) : quoteArg s = '"' :: (s.flatMap escapeChar ++ ['"']) := by
  have hstep (c : Char) : replaceChar '"' ['\\', '"'] (if c = '\\' then ['\\', '\\'] else [c]) =
      escapeChar c := by
    unfold replaceChar escapeChar
    by_cases h : c = '\\'
    · subst h
      rfl
    · by_cases hq : c = '"' <;> simp [h, hq]
  have hall : replaceChar '"' ['\\', '"'] (replaceChar '\\' ['\\', '\\'] s) = s.flatMap escapeChar := by
    rw [replaceChar, replaceChar, List.flatMap_assoc]
    exact List.flatMap_congr fun c _ => hstep c
  rw [quoteArg, hall]

namespace Reader
variable {r : Reader} {c : Char}

-- what one character outside single quotes does

theorem read_plain (hd : r.inDoubleQuotes = true) (hs : r.inSingleQuotes = false) (hc : c ≠ '\\')
    (hq : c ≠ '"') (cs : Chars) : r.read (c :: cs) = (r.push c).read cs := by
  rw [read.eq_def]
  simp [hd, hs, hc, hq]

theorem read_quote (hs : r.inSingleQuotes = false) (cs : Chars) :
    r.read ('"' :: cs) = { r with inDoubleQuotes := !r.inDoubleQuotes }.read cs := by
  rw [read.eq_def]
  simp [hs]

theorem read_blank (hd : r.inDoubleQuotes = false) (hs : r.inSingleQuotes = false) (cs : Chars) :
    r.read (' ' :: cs) = r.finish.read cs := by
  rw [read.eq_def]
  simp [hd, hs, isWhitespace]

/-- Between double quotes an escaped character is read as itself. -/
theorem read_escapeChar (hd : r.inDoubleQuotes = true) (hs : r.inSingleQuotes = false) (c : Char)
    (cs : Chars) : r.read (escapeChar c ++ cs) = (r.push c).read cs := by
  unfold escapeChar
  split
  · next h =>
    rcases h with rfl | rfl
    · simp [read, hd, hs]
    · simp [read, hd, hs]
  · next h => exact read_plain hd hs (fun hc => h (.inl hc)) (fun hq => h (.inr hq)) cs

theorem read_escaped (hd : r.inDoubleQuotes = true) (hs : r.inSingleQuotes = false) (s cs : Chars) :
    r.read (s.flatMap escapeChar ++ cs) = { r with current := r.current ++ s }.read cs := by
  induction s generalizing r with
  | nil => simp
  | cons c s ih =>
    rw [List.flatMap_cons, List.append_assoc, read_escapeChar hd hs, ih (r := r.push c) hd hs]
    simp [push]

/-- Outside quotes a quoted argument is read as what was quoted. -/
theorem read_quoteArg (hd : r.inDoubleQuotes = false) (hs : r.inSingleQuotes = false)
    (s cs : Chars) : r.read (quoteArg s ++ cs) = { r with current := r.current ++ s }.read cs := by
  have hopen := read_quote hs (s.flatMap escapeChar ++ '"' :: cs)
  have hinside := read_escaped (r := { r with inDoubleQuotes := !r.inDoubleQuotes }) (by simp [hd]) hs
    s ('"' :: cs)
  have hclose := read_quote
    (r := { r with inDoubleQuotes := !r.inDoubleQuotes, current := r.current ++ s }) hs cs
  rw [quoteArg_eq, List.cons_append, List.append_assoc, List.singleton_append, hopen, hinside, hclose]
  simp

theorem finish_args (r : Reader) : r.finish.args = r.args ++ [r.current].filter (· ≠ []) := by
  unfold finish
  split
  · next h => simp [h]
  · next h => simp [h]

theorem finish_current (r : Reader) : r.finish.current = [] := by
  unfold finish
  split
  · next h => exact h
  · rfl

theorem finish_inDoubleQuotes (r : Reader) : r.finish.inDoubleQuotes = r.inDoubleQuotes := by
  unfold finish
  split <;> rfl

theorem finish_inSingleQuotes (r : Reader) : r.finish.inSingleQuotes = r.inSingleQuotes := by
  unfold finish
  split <;> rfl

/-- Of quoted arguments all are read but the empty ones. -/
theorem read_joinArgs (hd : r.inDoubleQuotes = false) (hs : r.inSingleQuotes = false)
    (hc : r.current = []) (args : List Chars) :
    (r.read (joinArgs (args.map quoteArg))).finish.args = r.args ++ args.filter (· ≠ []) := by
  induction args generalizing r with
  | nil => simp [joinArgs, read, finish_args, hc]
  | cons a args ih =>
    cases args with
    | nil =>
      have hread := read_quoteArg hd hs a []
      rw [List.append_nil] at hread
      simp [joinArgs, hread, read, finish_args, hc]
    | cons b args =>
      have hjoin : joinArgs ((a :: b :: args).map quoteArg) =
          quoteArg a ++ ' ' :: joinArgs ((b :: args).map quoteArg) := by
        simp [joinArgs, List.intercalate_cons_cons]
      have hfinish : ({ r with current := r.current ++ a } : Reader).finish.args =
          r.args ++ [a].filter (· ≠ []) := by
        rw [finish_args]
        simp [hc]
      rw [hjoin, read_quoteArg hd hs, read_blank (r := { r with current := r.current ++ a }) hd hs,
        ih (by rw [finish_inDoubleQuotes, hd]) (by rw [finish_inSingleQuotes, hs]) (finish_current _),
        hfinish, List.append_assoc, ← List.filter_append, List.singleton_append]

theorem nonempty_finish (h : ∀ a ∈ r.args, a ≠ []) : ∀ a ∈ r.finish.args, a ≠ [] := by
  intro a ha
  rw [finish_args, List.mem_append, List.mem_filter, decide_eq_true_eq] at ha
  exact ha.elim (h a) fun ha => ha.2

/-- No argument that is read is empty. -/
theorem nonempty_read (h : ∀ a ∈ r.args, a ≠ []) (cs : Chars) : ∀ a ∈ (r.read cs).args, a ≠ [] := by
  fun_induction read r cs with
  | case1 r => exact h
  | case9 r c cs _ _ _ _ _ ih => exact ih (nonempty_finish h)
  | _ => simp_all [push]

end Reader

theorem parseCommandLine_joinArgs (args : List Chars) :
    parseCommandLine (joinArgs (args.map quoteArg)) = args.filter (· ≠ []) :=
  Reader.read_joinArgs rfl rfl rfl args

theorem ne_nil_of_mem_parseCommandLine {line a : Chars} (h : a ∈ parseCommandLine line) : a ≠ [] :=
  Reader.nonempty_finish (Reader.nonempty_read (by simp [Reader.start]) line) a h

/-- Arguments come back from a command line if and only if none of them is empty; those that were
read from a line do. -/
theorem parseCommandLine_quoteArg_iff (args : List Chars) (line : Chars) :
    (parseCommandLine (joinArgs (args.map quoteArg)) = args ↔ [] ∉ args) ∧
      parseCommandLine (joinArgs ((parseCommandLine line).map quoteArg)) = parseCommandLine line := by
  have hkept (args : List Chars) :
      parseCommandLine (joinArgs (args.map quoteArg)) = args ↔ [] ∉ args := by
    rw [parseCommandLine_joinArgs, List.filter_eq_self]
    constructor
    · intro h hnil
      exact of_decide_eq_true (h [] hnil) rfl
    · exact fun h a ha => decide_eq_true fun hnil => h (hnil ▸ ha)
  exact ⟨hkept args, (hkept _).2 fun hnil => ne_nil_of_mem_parseCommandLine hnil rfl⟩

/-- A session that is claimed without a name gets the directory as its name. -/
theorem parseCommandLine_drops_empty :
    let args := ["claim-session".toList, [], "C:\\repo".toList]
    parseCommandLine (joinArgs (args.map quoteArg)) = ["claim-session".toList, "C:\\repo".toList] ∧
      parseCommandLine (joinArgs (args.map quoteArg)) ≠ args := by
  decide +kernel

end Winsmux.Command
