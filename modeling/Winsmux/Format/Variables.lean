import Winsmux.Format.Syntax
import Winsmux.Layout.LayoutPrint

/-!
# The variables of formats

The state that formats show, and the names that stand for it. A name is looked up first
among the variables, then among the options, the options of the user and the environment.
The variables of panes are those of one pane: the pane at the position that a list of panes
has reached, or the active pane. What a variable reads elsewhere, from a terminal, a process
or the clock, is a parameter, as are the libraries.
-/
namespace Winsmux.Format
open CharText PathTree Layout

structure Pane extends Layout.Pane where
  title : Chars
  lastRows : ℕ
  lastCols : ℕ

/-- A window; no two of its panes have one id. -/
structure Window where
  id : ℕ
  name : Chars
  root : PathTree Split Pane
  activePath : List ℕ
  zoomed : Bool
  activityFlag : Bool
  bellFlag : Bool
  silenceFlag : Bool
  linked : Bool
  distinct : ((leaves root).map (·.id)).Nodup

structure App where
  windows : List Window
  activeIdx : ℕ
  lastWindowIdx : ℕ
  lastPanePath : List ℕ
  /-- The index of a window and the id of a pane. -/
  markedPane : Option (ℕ × ℕ)
  lastWindowArea : Rect
  windowBaseIndex : ℕ
  paneBaseIndex : ℕ
  sessionName : Chars
  sessionId : ℕ
  statusVisible : Bool
  copyPos : Option (ℕ × ℕ)
  /-- The texts of the options that have names of their own. -/
  namedOption : Chars → Option Chars
  userOptions : Chars → Option Chars
  environment : Chars → Option Chars

/-- The machine, the libraries and the screens, at one moment. -/
structure Outside where
  /-- Whether a result that does not fit stops the program; it wraps around otherwise. -/
  overflowChecks : Bool
  precisionLimit : ℕ
  newRect : ℕ → ℕ → ℕ → ℕ → Rect
  hostname : Chars
  version : Chars
  pid : ℕ
  /-- The variables that show the client, the clock, the buffers and what else has neither
  a pane nor arithmetic. -/
  reading : Chars → ℕ → Option Chars
  /-- What a variable reads from the process or the screen of a pane. -/
  paneReading : Chars → Pane → Chars
  mouseText : Chars → Pane → Option Rect → Chars
  copyText : Chars → Pane → ℕ × ℕ → Chars
  alternateScreen : Pane → Bool
  search : Pane → Bool → Bool → Chars → Chars
  shell : Chars → Chars
  strftime : Chars → Option Chars
  timeText : ℤ → Option Chars
  fileName : Chars → Option Chars
  parent : Chars → Option Chars
  lowercase : Chars → Chars
  /-- A regex replaced in a text, if it is one. -/
  substitute : Chars → Chars → Chars → Option Chars
  isMatch : Chars → Chars → Option Bool
  floatMath : Char → Chars → Chars → ℕ → Chars
  floatText : ℤ → ℕ → Chars

/-- A machine whose screens and libraries have nothing to give. -/
def Outside.bare : Outside where
  overflowChecks := false
  precisionLimit := 2 ^ 16 - 1
  newRect x y width height := ⟨x, y, width, height⟩
  hostname := []
  version := []
  pid := 1
  reading _ _ := none
  paneReading _ _ := []
  mouseText _ _ _ := []
  copyText _ _ _ := []
  alternateScreen _ := false
  search _ _ _ _ := []
  shell _ := []
  strftime _ := none
  timeText _ := none
  fileName _ := none
  parent _ := none
  lowercase s := s.map Char.toLower
  substitute _ _ _ := none
  isMatch _ _ := none
  floatMath _ _ _ _ := []
  floatText _ _ := []

/-- A session with one window of two panes, the second of them active. -/
def App.sample (name : Chars) (userOptions : Chars → Option Chars) : App where
  windows := [{
    id := 0
    name
    root := .split ⟨.horizontal, [50, 50]⟩ [.leaf ⟨⟨0, false⟩, [], 24, 39⟩, .leaf ⟨⟨1, false⟩, [], 24, 40⟩]
    activePath := [1]
    zoomed := false
    activityFlag := false
    bellFlag := false
    silenceFlag := false
    linked := false
    distinct := by decide }]
  activeIdx := 0
  lastWindowIdx := 0
  lastPanePath := []
  markedPane := none
  lastWindowArea := ⟨0, 0, 80, 24⟩
  windowBaseIndex := 0
  paneBaseIndex := 0
  sessionName := ['s']
  sessionId := 0
  statusVisible := true
  copyPos := none
  namedOption _ := none
  userOptions
  environment _ := none

def flag (b : Bool) : Chars := if b then ['1'] else ['0']

namespace Window

def panes (w : Window) : List Pane := leaves w.root

def paneIds (w : Window) : List ℕ := w.panes.map (·.id)

/-- The tree without what the layout does not use. -/
def node (w : Window) : Node := PathTree.map (fun a => a) Pane.toPane w.root

def activePaneId (w : Window) : Option ℕ := getActivePaneId w.node w.activePath

def activePanePos (w : Window) : ℕ := (w.paneIds.findIdx? (· = w.activePaneId.getD 0)).getD 0

end Window

/-- The pane that the variables of panes are about. -/
structure Target where
  pos : ℕ
  isActive : Bool
  deriving DecidableEq

/-- The pane at the position that is given, else the active one. -/
def Window.target (w : Window) : Option ℕ → Target
  | some pos => ⟨pos, (w.panes[pos]?).any fun p => some p.id = w.activePaneId⟩
  | none => ⟨w.activePanePos, true⟩

def Window.pane (w : Window) (t : Target) : Option Pane := w.panes[t.pos]?

def App.lookupOption (app : App) (name : Chars) : Option Chars :=
  if name.head? = some '@' then app.userOptions name
  else
    match app.namedOption name with
    | some value => some value
    | none =>
      (app.userOptions name).or ((app.environment name).or (app.userOptions ('@' :: name)))

section
variable (outside : Outside) (app : App)

def hostShort : Chars := outside.hostname.takeWhile (· ≠ '.')

/-- The variables that need no window. -/
def serverText (var : Chars) : Option Chars :=
  match String.ofList var with
  | "session_name" => some app.sessionName
  | "session_windows" => some (decimal app.windows.length)
  | "session_id" => some ('$' :: decimal app.sessionId)
  | "pid" | "server_pid" => some (decimal outside.pid)
  | "version" => some outside.version
  | "host" | "hostname" => some outside.hostname
  | "host_short" => some (hostShort outside)
  | _ => none

def windowFlags (w : Window) (winIdx : ℕ) : Chars :=
  (if winIdx = app.activeIdx then ['*'] else if winIdx = app.lastWindowIdx then ['-'] else []) ++
    (if w.zoomed then ['Z'] else []) ++ (if w.activityFlag then ['#'] else []) ++
    (if w.bellFlag then ['!'] else []) ++ (if w.silenceFlag then ['~'] else [])

def windowText (w : Window) (winIdx : ℕ) (var : Chars) : Option Chars :=
  match String.ofList var with
  | "window_name" => some w.name
  | "window_active" => some (flag (winIdx = app.activeIdx))
  | "window_panes" => some (decimal w.panes.length)
  | "window_flags" | "window_raw_flags" => some (windowFlags app w winIdx)
  | "window_id" => some ('@' :: decimal w.id)
  | "window_activity_flag" => some (flag w.activityFlag)
  | "window_zoomed_flag" => some (flag w.zoomed)
  | "window_width" | "client_width" => some (decimal app.lastWindowArea.width)
  | "window_height" => some (decimal app.lastWindowArea.height)
  | "window_silence_flag" => some (flag w.silenceFlag)
  | "window_bell_flag" => some (flag w.bellFlag)
  | "window_linked" | "window_linked_sessions" => some (flag w.linked)
  | "window_last_flag" => some (flag (winIdx = app.lastWindowIdx))
  | "window_start_flag" => some (flag (winIdx = 0))
  | "window_end_flag" => some (flag (winIdx = app.windows.length - 1))
  | _ => none

/-- A text about a pane, and what stands for it where there is none. -/
def aboutPane (p : Option Pane) (default : Chars) (text : Pane → Chars) : Option Chars :=
  some (p.elim default text)

def paneText (w : Window) (winIdx : ℕ) (t : Target) (var : Chars) : Option Chars :=
  let p := w.pane t
  match String.ofList var with
  | "pane_id" => aboutPane p ['%', '0'] fun p => '%' :: decimal p.id
  | "pane_title" => aboutPane p w.name fun p => if p.title ≠ [] then p.title else w.name
  | "pane_width" => aboutPane p ['8', '0'] fun p => decimal p.lastCols
  | "pane_height" => aboutPane p ['2', '4'] fun p => decimal p.lastRows
  | "pane_active" => some (flag t.isActive)
  | "pane_current_command" | "pane_current_path" | "pane_path" | "pane_pid" | "cursor_character" =>
    aboutPane p [] (outside.paneReading var)
  | "pane_fg" | "pane_bg" => aboutPane p "default".toList (outside.paneReading var)
  | "cursor_x" | "cursor_y" => aboutPane p ['0'] (outside.paneReading var)
  | "pane_tty" => aboutPane p [] fun p => "/dev/pty".toList ++ decimal p.id
  | "pane_dead" => aboutPane p ['0'] fun p => flag p.dead
  | "pane_marked" => aboutPane p ['0'] fun p => flag (app.markedPane = some (winIdx, p.id))
  | "pane_marked_set" => some (flag app.markedPane.isSome)
  | _ => none

end

section
variable {m : Type → Type} [Monad m] (fx : Effects m) (outside : Outside) (app : App)

/-- A result of so many bits. -/
def narrow (bits n : ℕ) : m ℕ :=
  if n < 2 ^ bits then pure n
  else if outside.overflowChecks then fx.stop .arithmetic (n % 2 ^ bits)
  else pure (n % 2 ^ bits)

/-- The value of a computation none of whose results is too large, else what the build
makes of it. -/
def checked {α : Type} (fits : Bool) (value : α) : m α :=
  if outside.overflowChecks ∧ !fits then fx.stop .arithmetic value else pure value

/-- Whether no number is too large where the rectangles of the panes are computed. -/
def Window.fits (w : Window) : Bool :=
  (Cells.computeRects Overflow.checked outside.newRect w.node app.lastWindowArea).isSome

def Window.rects (w : Window) : m (List (List ℕ × Rect)) :=
  checked fx outside (w.fits outside app)
    (Id.run (Cells.computeRects Overflow.wrapping outside.newRect w.node app.lastWindowArea))

/-- The rectangle of the pane with an id. -/
def Window.rectOf (w : Window) (id : ℕ) (rects : List (List ℕ × Rect)) : Option Rect :=
  (rects.find? fun l => getActivePaneId w.node l.1 = some id).map Prod.snd

/-- The layout string, for which the same rectangles are computed. -/
def Window.layout (w : Window) : m Chars :=
  checked fx outside (w.fits outside app)
    ((generateWindowLayout outside.newRect w.node app.lastWindowArea).map fun b => Char.ofNat b.toNat)

/-- A text about the rectangle of a pane, and what stands for it where there is none. -/
def edge (w : Window) (t : Target) (default : Chars) (text : Rect → m Chars) : m Chars :=
  match w.pane t with
  | none => pure default
  | some p => do
    let rects ← w.rects fx outside app
    match w.rectOf p.id rects with
    | none => pure default
    | some r => text r

def edgeText (w : Window) (t : Target) (var : Chars) : Option (m Chars) :=
  let area := app.lastWindowArea
  match String.ofList var with
  | "pane_left" => some (edge fx outside app w t ['0'] fun r => pure (decimal r.x))
  | "pane_top" => some (edge fx outside app w t ['0'] fun r => pure (decimal r.y))
  | "pane_right" => some (edge fx outside app w t ['7', '9'] fun r => do
    let right ← narrow fx outside 16 (r.x + r.width)
    pure (decimal (right - 1)))
  | "pane_bottom" => some (edge fx outside app w t ['2', '3'] fun r => do
    let bottom ← narrow fx outside 16 (r.y + r.height)
    pure (decimal (bottom - 1)))
  | "pane_at_top" => some (edge fx outside app w t ['1'] fun r => pure (flag (r.y = area.y)))
  | "pane_at_bottom" => some (edge fx outside app w t ['1'] fun r => do
    let bottom ← narrow fx outside 16 (r.y + r.height)
    let winBottom ← narrow fx outside 16 (area.y + area.height)
    pure (flag (bottom ≥ winBottom)))
  | "pane_at_left" => some (edge fx outside app w t ['1'] fun r => pure (flag (r.x = area.x)))
  | "pane_at_right" => some (edge fx outside app w t ['1'] fun r => do
    let right ← narrow fx outside 16 (r.x + r.width)
    let winRight ← narrow fx outside 16 (area.x + area.width)
    pure (flag (right ≥ winRight)))
  | _ => none

mutual

/-- The pane a path leads to, an index beyond the children taken as the last. -/
def activePane : PathTree Split Pane → List ℕ → m (Option Pane)
  | .leaf p, _ => pure (some p)
  | .split _ _, [] => pure none
  | .split _ children, i :: path => activePaneIn children (min i (children.length - 1)) path

def activePaneIn : List (PathTree Split Pane) → ℕ → List ℕ → m (Option Pane)
  | [], _, _ => fx.stop .childIndex none
  | c :: _, 0, path => activePane c path
  | _ :: cs, i + 1, path => activePaneIn cs i path

end

/-- A text about the active pane, and what stands for it where there is none. -/
def aboutActive (w : Window) (default : Chars) (text : Pane → m Chars) : m Chars := do
  match ← activePane fx w.root w.activePath with
  | none => pure default
  | some p => text p

/-- Whether a pane is the one that was active before. -/
def paneLast (w : Window) (t : Target) : m Chars :=
  match w.pane t with
  | none => pure ['0']
  | some p =>
    if app.lastPanePath = [] then pure ['0']
    else do
      match ← activePane fx w.root app.lastPanePath with
      | none => pure ['0']
      | some last => pure (flag (last.id = p.id))

def activeText (w : Window) (var : Chars) : Option (m Chars) :=
  match String.ofList var with
  | "mouse_line" | "mouse_word" => some (aboutActive fx w [] fun p => do
    let rects ← w.rects fx outside app
    pure (outside.mouseText var p (w.rectOf p.id rects)))
  | "copy_cursor_word" | "copy_cursor_line" => some <|
    match app.copyPos with
    | none => pure []
    | some pos => aboutActive fx w [] fun p => pure (outside.copyText var p pos)
  | "scroll_region_lower" => some (aboutActive fx w ['0'] fun p => pure (decimal (p.lastRows - 1)))
  | "alternate_on" => some (aboutActive fx w ['0'] fun p => pure (flag (outside.alternateScreen p)))
  | _ => none

def indexText (w : Window) (winIdx : ℕ) (t : Target) (var : Chars) : Option (m Chars) :=
  match String.ofList var with
  | "window_index" => some (decimal <$> narrow fx outside 64 (winIdx + app.windowBaseIndex))
  | "pane_index" => some (decimal <$> narrow fx outside 64 (t.pos + app.paneBaseIndex))
  | "pane_last" => some (paneLast fx app w t)
  | "window_layout" | "window_visible_layout" => some (w.layout fx outside app)
  | "client_height" => some
    (decimal <$> narrow fx outside 16 (app.lastWindowArea.height + if app.statusVisible then 1 else 0))
  | _ => none

/-- The names whose text needs no effect. -/
def pureText (w : Window) (winIdx : ℕ) (t : Target) (var : Chars) : Chars :=
  ((serverText outside app var).or ((windowText app w winIdx var).or
    ((paneText outside app w winIdx t var).or
      ((outside.reading var winIdx).or (app.lookupOption var))))).getD []

/-- A name in a window, for a pane of it. -/
def windowVar (w : Window) (winIdx : ℕ) (t : Target) (var : Chars) : m Chars :=
  ((indexText fx outside app w winIdx t var).or ((edgeText fx outside app w t var).or
    (activeText fx outside app w var))).getD (pure (pureText outside app w winIdx t var))

def expandVar (var : Chars) (winIdx : ℕ) : m Chars :=
  match app.windows[winIdx]? with
  | none => pure (((serverText outside app var).or (app.lookupOption var)).getD [])
  | some w => do
    let override ← fx.target
    windowVar fx outside app w winIdx (w.target override) var

end
end Winsmux.Format
