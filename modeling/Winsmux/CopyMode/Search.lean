import Winsmux.CopyMode.Text
import Winsmux.Overflow

/-!
# Searching the screen in copy mode

`search_copy_mode` lays a row of cells out as a text, lowers its case, looks for the lowered
query and keeps offsets into that text as columns. `search_next` and `search_prev` step through
what it kept. Beside them stands what a match is in cells: every character of the lowered text
comes from a cell, and a match covers the cells from its first character's to its last one's.
-/
namespace Winsmux.CopyMode

/-- What a sum of 16 bits becomes: with the build's checks it stops the program where it does
not fit, without them it wraps around. -/
def ofBuild (checks : Bool) : Overflow Option where
  u16 n := if n < 2 ^ 16 then some n else if checks then none else some (n % 2 ^ 16)
  u32 n := if n < 2 ^ 32 then some n else if checks then none else some (n % 2 ^ 32)
  u16_of_lt h := if_pos h
  u32_of_lt h := if_pos h

/-- A row and two columns. -/
structure Match where
  row : ℕ
  colStart : ℕ
  colEnd : ℕ
  deriving DecidableEq, Repr

def Match.cursor (m : Match) : ℕ × ℕ := (m.row, m.colStart)

/-- The text of the cell in a row and a column, where the screen has one. -/
structure Screen where
  cell : ℕ → ℕ → Option (List Char)

/-- The terminal's screen is missing where its lock is poisoned. -/
structure Pane where
  lastRows : ℕ
  lastCols : ℕ
  term : Option Screen
  rows_lt : lastRows < 2 ^ 16
  cols_lt : lastCols < 2 ^ 16

/-- `activePane` is the one `active_pane_mut` finds in the active window. -/
structure App where
  activePane : Option Pane
  userOptions : String → Option String
  copySearchMatches : List Match
  copySearchIdx : ℕ
  copyPos : Option (ℕ × ℕ)

/-- An empty cell, and one the screen does not have, is a blank. -/
def cellText (screen : Screen) (r c : ℕ) : List Char :=
  match screen.cell r c with
  | some t => if t.isEmpty then [' '] else t
  | none => [' ']

def rowText (p : Pane) (screen : Screen) (r : ℕ) : List Char :=
  (List.range p.lastCols).flatMap (cellText screen r)

/-- The loop over a row from the offset `start`: it fails where an offset is inside a character,
or a sum does not fit and is checked. -/
def scanRow (checks : Bool) (queryLower rowLower : List Char) (r start : ℕ) : Option (List Match) :=
  match _h : sliceFrom start rowLower with
  | none => none
  | some rest =>
    match find queryLower rest with
    | none => some []
    | some pos => do
      let colStart := (start + pos) % 2 ^ 16
      let colEnd ← (ofBuild checks).u16 (colStart + byteLen queryLower % 2 ^ 16)
      let more ← scanRow checks queryLower rowLower r (start + (pos + 1))
      some (⟨r, colStart, colEnd⟩ :: more)
termination_by byteLen rowLower + 1 - start
decreasing_by
  have hle := le_byteLen_of_sliceFrom ‹_›
  omega

section
variable (table : CaseTable)

/-- The rows of a pane, from the top. -/
def scanPane (checks : Bool) (p : Pane) (screen : Screen) (query : List Char) : Option (List Match) := do
  let queryLower := table.toLowercase query
  let found ← (List.range p.lastRows).mapM fun r =>
    scanRow checks queryLower (table.toLowercase (rowText p screen r)) r 0
  some found.flatten

/-- Nothing, where the program panics. -/
def searchCopyMode (checks : Bool) (app : App) (query : List Char) (forward : Bool) : Option App :=
  let app := { app with copySearchMatches := [], copySearchIdx := 0 }
  if query.isEmpty then some app
  else
    match app.activePane with
    | none => some app
    | some p =>
      match p.term with
      | none => some app
      | some screen => do
        let found ← scanPane table checks p screen query
        some { app with copySearchMatches := if forward then found else found.reverse }

end

def App.wraps (app : App) : Bool := app.userOptions "wrap-search" ≠ some "off"

/-- The cursor goes to the match the index stands for. -/
def App.goTo (app : App) (idx : ℕ) : Option App := do
  let m ← app.copySearchMatches[idx]?
  some { app with copySearchIdx := idx, copyPos := some m.cursor }

def searchNext (app : App) : Option App :=
  if app.copySearchMatches.isEmpty then some app
  else
    let next := app.copySearchIdx + 1
    if app.copySearchMatches.length ≤ next then
      if !app.wraps then some app else app.goTo 0
    else app.goTo next

def searchPrev (app : App) : Option App :=
  if app.copySearchMatches.isEmpty then some app
  else if app.copySearchIdx = 0 then
    if !app.wraps then some app else app.goTo (app.copySearchMatches.length - 1)
  else app.goTo (app.copySearchIdx - 1)

/-- The characters of the texts, each with the column of its text. -/
def spread (texts : List (ℕ × List Char)) : List (ℕ × Char) :=
  texts.flatMap fun (c, t) => t.map fun ch => (c, ch)

def rowCells (p : Pane) (screen : Screen) (r : ℕ) : List (ℕ × Char) :=
  spread ((List.range p.lastCols).map fun c => (c, cellText screen r c))

section
variable (table : CaseTable)

/-- The characters of the lowered row, each with the column of the cell it comes from. -/
def loweredCells (p : Pane) (screen : Screen) (r : ℕ) : List (ℕ × Char) :=
  spread (((rowCells p screen r).map Prod.fst).zip (table.lowerPieces [] (rowText p screen r)))

/-- The column of the lowered row's character in place `k`. -/
def columnAt (lowered : List (ℕ × Char)) (k : ℕ) : ℕ := (lowered.map Prod.fst).getD k 0

/-- The match of `n` characters in place `k`: from the first one's cell to behind the last one's. -/
def matchAt (lowered : List (ℕ × Char)) (n r k : ℕ) : Match :=
  ⟨r, columnAt lowered k, columnAt lowered (k + n - 1) + 1⟩

/-- Every match, row by row and from left to right. -/
def screenMatches (p : Pane) (screen : Screen) (query : List Char) : List Match :=
  let queryLower := table.toLowercase query
  (List.range p.lastRows).flatMap fun r =>
    let lowered := loweredCells table p screen r
    (occurrences queryLower (lowered.map Prod.snd)).map (matchAt lowered queryLower.length r)

end
end Winsmux.CopyMode
