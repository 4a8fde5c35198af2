import Winsmux.Config.Content
import Winsmux.Command.CommandLine

/-!
# Files that load files

A line of a configuration file may load another: a file it names, that of a plugin it declares, the
entry script of a plugin for tmux. A load runs every line of its file and, with each that loads
another, that file's lines before it goes on. The files, the directories, the process environment and
the commands that load nothing are given.
-/
namespace Winsmux.Config
open CharText

/-- What a file is read as. -/
inductive Kind where
  | conf
  | tmux
  | ps1
  deriving DecidableEq

structure Entry where
  kind : Kind
  path : Chars
  deriving DecidableEq

/-- What the loader asks of its surroundings; `σ` is the state that is not the environment. The
processes that conditions run come to an end. -/
structure World (σ : Type) where
  read : Chars → Option Chars
  pathExists : Chars → Bool
  isFile : Chars → Bool
  isDir : Chars → Bool
  /-- The files of a directory. -/
  filesIn : Chars → List Chars
  parent : Chars → Chars
  fileName : Chars → Chars
  isAlphanumeric : Char → Bool
  homeDir : App σ → Chars
  xdgConfigHome : App σ → Option Chars
  currentConfigFile : App σ → Chars
  setCurrentConfigFile : Chars → App σ → App σ
  /-- None where the expansion panics or never ends. -/
  expandFormat : Chars → App σ → Option (Chars × App σ)
  lookupOption : Chars → App σ → Option Chars
  setOption : Chars → Chars → App σ → App σ
  /-- A variable of the process; none where setting it panics. -/
  setVar : Chars → Chars → App σ → Option (App σ)
  /-- How many entries fit in a vector. -/
  vectorLimit : ℕ
  pushPendingPluginScript : Chars → App σ → App σ
  conditionSucceeds : Chars → App σ → Bool × App σ
  spawn : Chars → App σ → App σ
  /-- The commands that load nothing. -/
  otherCommand : Chars → App σ → App σ

/-- What a line comes to: it is done, it panics or never ends, or it goes on by loading a file. -/
inductive Act (σ : Type) where
  | done (app : App σ)
  | panic
  | load (e : Entry) (before : App σ) (after : App σ → App σ)

def Act.ofOption {σ : Type} (app : Option (App σ)) : Act σ := app.elim .panic .done

def text (s : String) : Chars := s.toList

def isSuffix (t : Chars) (s : String) : Bool := s.toList.isSuffixOf t

section
variable {σ : Type} (w : World σ)

def xdgBase (app : App σ) : Chars := (w.xdgConfigHome app).getD (w.homeDir app ++ text "\\.config")

/-- The place of a file below `~/.psmux` where only its other place has it. -/
def xdgFallback (path : Chars) (app : App σ) : Chars :=
  let classic := w.homeDir app ++ text "\\.psmux\\"
  if w.pathExists path then path
  else if classic.isPrefixOf path then
    let xdgAlt := xdgBase w app ++ text "\\psmux\\" ++ path.drop classic.length
    if w.pathExists xdgAlt then xdgAlt else path
  else path

/-- A load with the name of its file as the current one. -/
def loadAs (kind : Kind) (path : Chars) (app : App σ) (after : App σ → App σ) : Act σ :=
  let prevFile := w.currentConfigFile app
  .load ⟨kind, path⟩ (w.setCurrentConfigFile path app) fun app => after (w.setCurrentConfigFile prevFile app)

/-- The path that a file is named by, once it is expanded. -/
def sourcePath (path : Chars) (app : App σ) : Act σ :=
  let path := if path.head? = some '~' then w.homeDir app ++ path.tail else path
  loadAs w .conf (xdgFallback w (replaceChar '/' ['\\'] path) app) app id

/-- `source_file` -/
def sourceFile (path : Chars) (app : App σ) : Act σ :=
  let path := unquote path
  if startsWith path "-F " || startsWith path "-F\t" then
    (w.expandFormat (unquote (path.drop 3)) app).elim .panic fun r => sourcePath w r.1 r.2
  else sourcePath w path app

/-- The flags of `set-option`: which there are, and what stands behind them. -/
structure SetFlags where
  formatExpand : Bool
  onlyIfUnset : Bool
  append : Bool
  unset : Bool
  rest : List Chars

def readSetFlags (flags : SetFlags) : List Chars → SetFlags
  | [] => { flags with rest := [] }
  | p :: ps =>
    if p.head? = some '-' then
      let flags := { flags with
        formatExpand := flags.formatExpand || 'F' ∈ p
        onlyIfUnset := flags.onlyIfUnset || 'o' ∈ p
        append := flags.append || 'a' ∈ p
        unset := flags.unset || 'u' ∈ p }
      readSetFlags flags (if 't' ∈ p then ps.tail else ps)
    else { flags with rest := p :: ps }
termination_by args => args.length
decreasing_by
  split <;> simp

/-- The value of an option without the quotes around it; a quotation mark alone is cut out of
bounds. -/
def optionValue (v : Chars) : Option Chars :=
  if v.head? = some '"' ∧ v.getLast? = some '"' ∨ v.head? = some '\'' ∧ v.getLast? = some '\'' then
    if v.length = 1 then none else some v.tail.dropLast
  else some v

def pluginName (value : Chars) : Chars := (value.reverse.takeWhile (· ≠ '/')).reverse

/-- The plugin directories that are tried, each with the name of the directory in it. -/
def pluginDirs (value : Chars) (app : App σ) : List Chars :=
  let home := w.homeDir app
  let xdgConfig := xdgBase w app
  let full := replaceChar '/' ['\\'] value
  let name := pluginName value
  [home ++ text "\\.psmux\\plugins\\" ++ full, home ++ text "\\.psmux\\plugins\\" ++ name,
    home ++ text "\\.psmux\\plugins\\psmux-plugins\\" ++ name,
    xdgConfig ++ text "\\psmux\\plugins\\" ++ full, xdgConfig ++ text "\\psmux\\plugins\\" ++ name,
    xdgConfig ++ text "\\psmux\\plugins\\psmux-plugins\\" ++ name]

/-- The command of a line of a plugin's script. -/
def ps1Command (line : Chars) : Option Chars :=
  let l := trim line
  if l = [] ∨ l.head? = some '#' then none
  else
    match splitAtText (text "$PSMUX ") l with
    | some (front, rest) =>
      if (trimEnd front).getLast? = some '&' then
        let cmd := ((splitAtText (text " 2>&1") rest).map Prod.fst).getD rest
        let cmd := ((splitAtText (text " 2>$null") cmd).map Prod.fst).getD cmd
        some (trim cmd)
      else none
    | none => none

/-- Whether a command has a variable of the script's own. -/
def hasPsVar (cmd : Chars) : Bool :=
  (cmd.splitOn '$').tail.any fun part =>
    let firstWord := part.takeWhile fun c => w.isAlphanumeric c || c = '_'
    firstWord ≠ [] && firstWord ≠ text "PSMUX" && firstWord ≠ text "TMUX" && firstWord ≠ text "env" &&
      firstWord ≠ text "null"

def isPs1Config (cmd : Chars) : Bool :=
  startsWith cmd "set " || startsWith cmd "set-option " || startsWith cmd "bind-key " ||
    startsWith cmd "bind " || startsWith cmd "setw " || startsWith cmd "set-window-option "

/-- The commands of a script that are run, and whether it had such variables. -/
def ps1Commands (hasPsVars : Bool) : List Chars → List Chars × Bool
  | [] => ([], hasPsVars)
  | line :: rest =>
    match ps1Command line with
    | none => ps1Commands hasPsVars rest
    | some cmd =>
      let hasPsVars := hasPsVars || hasPsVar w cmd
      let (cmds, result) := ps1Commands hasPsVars rest
      (if isPs1Config cmd && !hasPsVars then cmd :: cmds else cmds, result)

/-- Whether a script was applied as a whole. -/
def ps1Applied (content : Chars) : Bool :=
  let (cmds, hasPsVars) := ps1Commands w false (lines content)
  cmds ≠ [] && !hasPsVars

/-- What declaring a plugin loads: its configuration, or the first of its scripts. -/
def loadPlugin (value : Chars) (app : App σ) : Act σ :=
  let dirs := pluginDirs w value app
  match (dirs.map (· ++ text "\\plugin.conf")).find? w.pathExists with
  | some conf => loadAs w .conf conf app id
  | none =>
    match (dirs.map (· ++ '\\' :: (pluginName value ++ text ".ps1"))).find? w.pathExists with
    | some ps1 =>
      match w.read ps1 with
      | some content =>
        loadAs w .ps1 ps1 app fun app =>
          if ps1Applied w content then app else w.pushPendingPluginScript ps1 app
      | none => .done app
    | none => .done app

/-- The number of a line of the status, of the options that set one. -/
def statusFormatIndex (key : Chars) : Option ℕ :=
  if startsWith key "status-format[" ∧ key.getLast? = some ']' then
    parseUnsigned 64 (key.drop "status-format[".length).dropLast
  else none

/-- `parse_option_value`; a line of the status with a number that no vector has room for makes the
list of lines grow until the program is stopped. -/
def parseOptionValue (key value : Chars) (app : App σ) : Act σ :=
  match optionValue (trim value) with
  | none => .panic
  | some value =>
    if key = text "cursor-style" then .ofOption (w.setVar (text "PSMUX_CURSOR_STYLE") value app)
    else if (statusFormatIndex key).any (w.vectorLimit ≤ ·) then .panic
    else
      let app := w.setOption key value app
      if key = text "@plugin" ∧ value ≠ [] ∧ pluginName value ≠ text "ppm" then loadPlugin w value app
      else .done app

/-- `parse_set_option` -/
def parseSetOption (line : Chars) (app : App σ) : Act σ :=
  let flags := readSetFlags ⟨false, false, false, false, []⟩ (splitWhitespace line).tail
  match flags.rest with
  | [] => .done app
  | key :: rawValue =>
    if flags.unset then parseOptionValue w key [] app
    else if flags.onlyIfUnset ∧ ((w.lookupOption key app).getD []) ≠ [] then .done app
    else
      let rawValue := [' '].intercalate rawValue
      let expanded :=
        if flags.formatExpand ∧ rawValue ≠ [] then
          w.expandFormat (trimMatches '\'' (trimMatches '"' rawValue)) app
        else some (rawValue, app)
      expanded.elim .panic fun (value, app) =>
        let value :=
          if flags.append then
            (w.lookupOption key app).getD [] ++ trimMatches '\'' (trimMatches '"' value)
          else value
        parseOptionValue w key value app

/-- `set-environment`, for the application and for the process. -/
def parseSetEnvironment (line : Chars) (app : App σ) : Act σ :=
  match (splitWhitespace line).tail.dropWhile (·.head? = some '-') with
  | name :: v :: vs =>
    let val := [' '].intercalate (v :: vs)
    .ofOption (w.setVar name val { app with environment := Function.update app.environment name (some val) })
  | _ => .done app

def joinPath (dir name : Chars) : Chars :=
  if dir = [] ∨ dir.getLast? = some '\\' ∨ dir.getLast? = some '/' then dir ++ name else dir ++ '\\' :: name

/-- `expand_run_shell_path` -/
def expandRunShellPath (cmd : Chars) (app : App σ) : Chars :=
  let home := w.homeDir app
  let cmd :=
    if '~' ∈ cmd then
      replaceText (text "~\\") (home ++ ['\\']) (replaceText (text "~/") (home ++ ['/']) cmd)
    else cmd
  let classicFwd := home ++ text "/.psmux/plugins/"
  let classicWin := home ++ text "\\.psmux\\plugins\\"
  if (splitAtText classicFwd cmd).isSome || (splitAtText classicWin cmd).isSome then
    let classicDir := joinPath (joinPath home (text ".psmux")) (text "plugins")
    let xdgDir := joinPath (joinPath (xdgBase w app) (text "psmux")) (text "plugins")
    if !w.isDir classicDir && w.isDir xdgDir then
      let xdgFwd := replaceChar '\\' ['/'] (xdgBase w app) ++ text "/psmux/plugins/"
      let xdgWin := xdgBase w app ++ text "\\psmux\\plugins\\"
      replaceText classicWin xdgWin (replaceText classicFwd xdgFwd cmd)
    else cmd
  else cmd

/-- `parse_run_shell` -/
def parseRunShell (line : Chars) (app : App σ) : Act σ :=
  let args := Command.parseCommandLine line
  let shellCmd := [' '].intercalate (args.tail.filter (· ≠ text "-b"))
  if args.length < 2 ∨ shellCmd = [] then .done app
  else
    let shellCmd := expandRunShellPath w shellCmd app
    let trimmed := trimMatches '"' (trimMatches '\'' (trim shellCmd))
    if isSuffix trimmed ".tmux" && w.isFile trimmed then .load ⟨.tmux, trimmed⟩ app id
    else .done (w.spawn shellCmd app)

/-- The rest of an argument that begins with a quotation mark, and the words behind it. -/
def readQuoted (q : Char) (buf : Chars) : List Chars → Chars × List Chars
  | [] => (buf, [])
  | p :: ps =>
    if p.getLast? = some q then ((buf ++ ' ' :: p).dropLast, ps) else readQuoted q (buf ++ ' ' :: p) ps

theorem length_readQuoted_le (q : Char) (buf : Chars) (ps : List Chars) :
    (readQuoted q buf ps).2.length ≤ ps.length := by
  induction ps generalizing buf with
  | nil => simp [readQuoted]
  | cons p ps ih =>
    rw [readQuoted]
    split
    · simp
    · exact (ih _).trans (by simp)

/-- The arguments of `if-shell`, and whether its condition is a format. -/
def ifShellArgs (formatMode : Bool) : List Chars → Bool × List Chars
  | [] => (formatMode, [])
  | s :: rest =>
    if s = text "-b" then ifShellArgs formatMode rest
    else if s = text "-F" ∨ s = text "-bF" ∨ s = text "-Fb" then ifShellArgs true rest
    else if s = text "-t" then ifShellArgs formatMode rest.tail
    else if s.head? = some '"' ∨ s.head? = some '\'' then
      let q := s.head?.getD '"'
      if s.getLast? = some q ∧ 1 < s.length then
        let (formatMode, args) := ifShellArgs formatMode rest
        (formatMode, s.tail.dropLast :: args)
      else
        let quoted := readQuoted q s.tail rest
        let (formatMode, args) := ifShellArgs formatMode quoted.2
        (formatMode, quoted.1 :: args)
    else
      let (formatMode, args) := ifShellArgs formatMode rest
      (formatMode, s :: args)
termination_by args => args.length
decreasing_by
  · simp
  · simp
  · simp
  · simp
  · have hle := length_readQuoted_le ((s.head?).getD '"') s.tail rest
    rw [List.length_cons]
    omega
  · simp

def ifShellCondition (formatMode : Bool) (condition : Chars) (app : App σ) : Bool × App σ :=
  if formatMode then (condition ≠ [] && condition ≠ ['0'], app)
  else if condition = text "true" ∨ condition = ['1'] then (true, app)
  else if condition = text "false" ∨ condition = ['0'] then (false, app)
  else w.conditionSucceeds condition app

/-- The branch of `if-shell` that is run. -/
def parseIfShell (line : Chars) (app : App σ) : Option Chars × App σ :=
  let parts := splitWhitespace line
  if parts.length < 3 then (none, app)
  else
    match ifShellArgs false parts.tail with
    | (formatMode, condition :: trueCmd :: rest) =>
      let (success, app) := ifShellCondition w formatMode condition app
      (if success then some trueCmd else rest.head?, app)
    | _ => (none, app)

/-- The characters of words with a blank behind each. -/
def wordsLength (words : List Chars) : ℕ := (words.map fun p => p.length + 1).sum

theorem wordsLength_cons (p : Chars) (words : List Chars) :
    wordsLength (p :: words) = p.length + 1 + wordsLength words := by
  rw [wordsLength, List.map_cons, List.sum_cons, wordsLength]

theorem wordsLength_wordsFrom (current t : Chars) :
    wordsLength (wordsFrom current t) ≤ current.length + t.length + 1 := by
  induction t generalizing current with
  | nil =>
    rw [wordsFrom]
    split
    · simp [wordsLength]
    · simp [wordsLength]
  | cons c t ih =>
    rw [wordsFrom, List.length_cons]
    split
    · split
      · have hle := ih []
        rw [List.length_nil] at hle
        omega
      · have hle := ih []
        rw [List.length_nil] at hle
        rw [wordsLength_cons]
        omega
    · have hle := ih (current ++ [c])
      rw [List.length_append, List.length_singleton] at hle
      omega

theorem length_readQuoted (q : Char) (buf : Chars) (ps : List Chars) :
    (readQuoted q buf ps).1.length + wordsLength (readQuoted q buf ps).2 ≤ buf.length + wordsLength ps := by
  induction ps generalizing buf with
  | nil => simp [readQuoted]
  | cons p ps ih =>
    rw [readQuoted, wordsLength_cons]
    split
    · simp only [List.length_dropLast, List.length_append, List.length_cons]
      omega
    · have hle := ih (buf ++ ' ' :: p)
      simp only [List.length_append, List.length_cons] at hle
      omega

/-- No argument is longer than the words it was read from. -/
theorem length_lt_of_mem_ifShellArgs {formatMode : Bool} {words : List Chars} {a : Chars}
    (h : a ∈ (ifShellArgs formatMode words).2) : a.length < wordsLength words := by
  fun_induction ifShellArgs formatMode words with
  | case1 => cases h
  | case2 _ rest ih =>
    have hlt := ih h
    rw [wordsLength_cons]
    omega
  | case3 _ s rest _ _ ih =>
    have hlt := ih h
    rw [wordsLength_cons]
    omega
  | case4 _ rest _ _ ih =>
    have hlt := ih h
    cases rest with
    | nil => simp [wordsLength] at hlt
    | cons p rest =>
      rw [wordsLength_cons, wordsLength_cons]
      simp only [List.tail_cons] at hlt
      omega
  | case5 _ s rest _ _ _ _ q _ _ _ _ ih =>
    rw [wordsLength_cons]
    rcases List.mem_cons.1 h with rfl | h
    · simp only [List.length_dropLast, List.length_tail]
      omega
    · have hlt := ih (by simp_all)
      omega
  | case6 _ s rest _ _ _ _ q _ quoted _ _ _ ih =>
    have hle : quoted.1.length + wordsLength quoted.2 ≤ s.length - 1 + wordsLength rest := by
      rw [← List.length_tail]
      exact length_readQuoted q s.tail rest
    rw [wordsLength_cons]
    rcases List.mem_cons.1 h with rfl | h
    · omega
    · have hlt := ih (by simp_all)
      omega
  | case7 _ s rest _ _ _ _ _ _ _ ih =>
    rw [wordsLength_cons]
    rcases List.mem_cons.1 h with rfl | h
    · omega
    · have hlt := ih (by simp_all)
      omega

theorem length_parseIfShell {line cmd : Chars} {app : App σ} (h : (parseIfShell w line app).1 = some cmd) :
    cmd.length < line.length := by
  have hwords := wordsLength_wordsFrom [] line
  have hmem : cmd ∈ (ifShellArgs false (splitWhitespace line).tail).2 := by
    rw [parseIfShell] at h
    dsimp only at h
    split at h
    · cases h
    · split at h
      · next formatMode condition trueCmd rest hargs =>
        rw [hargs]
        have hcmd : cmd = trueCmd ∨ rest.head? = some cmd := by
          dsimp only at h
          split at h
          · exact .inl (Option.some.inj h).symm
          · exact .inr h
        rcases hcmd with rfl | hcmd
        · exact List.mem_cons_of_mem _ List.mem_cons_self
        · obtain ⟨t, rfl⟩ := List.head?_eq_some_iff.1 hcmd
          simp
      · cases h
  have hlt := length_lt_of_mem_ifShellArgs hmem
  unfold splitWhitespace at hlt
  cases hsplit : wordsFrom [] line with
  | nil =>
    rw [hsplit] at hlt
    simp [wordsLength] at hlt
  | cons p words =>
    rw [hsplit, List.tail_cons] at hlt
    rw [hsplit, wordsLength_cons, List.length_nil] at hwords
    omega

theorem length_trim_le (t : Chars) : (trim t).length ≤ t.length :=
  (List.rdropWhile_prefix _ _).length_le.trans (List.dropWhile_suffix _).length_le

/-- A line without the backslashes at its end. -/
def bareLine (line : Chars) : Chars :=
  let l := trim line
  if l.getLast? = some '\\' then trim (trimEndMatches '\\' l) else l

theorem length_bareLine_le (line : Chars) : (bareLine line).length ≤ line.length := by
  unfold bareLine
  dsimp only
  split
  · exact ((length_trim_le _).trans (List.rdropWhile_prefix _ _).length_le).trans (length_trim_le line)
  · exact length_trim_le line

/-- `parse_config_line` -/
def lineAct (line : Chars) (app : App σ) : Act σ :=
  let l := bareLine line
  if trim line = [] ∨ (trim line).head? = some '#' then .done app
  else if startsWith l "set-option " || startsWith l "set " || startsWith l "setw " ||
      startsWith l "set-window-option " then parseSetOption w l app
  else if startsWith l "source-file " || startsWith l "source " then
    sourceFile w (trim ((l.dropWhile (· ≠ ' ')).tail)) app
  else if startsWith l "run-shell " || startsWith l "run " then parseRunShell w l app
  else if startsWith l "if-shell " || startsWith l "if " then
    match _h : parseIfShell w l app with
    | (some cmd, app) => lineAct cmd app
    | (none, app) => .done app
  else if startsWith l "set-environment " || startsWith l "setenv " then parseSetEnvironment w l app
  else .done (w.otherCommand l app)
termination_by line.length
decreasing_by
  exact (length_parseIfShell w (by rw [_h])).trans_le (length_bareLine_le line)

def backtick : Char := Char.ofNat 0x60

/-- The command of a line of a script, and the directory the script has set. -/
def tmuxCommand (pluginDir line : Chars) : Option Chars × Chars :=
  let l := trim line
  if l = [] ∨ l.head? = some '#' then (none, pluginDir)
  else if startsWith l "PLUGIN_DIR=" || startsWith l "export PLUGIN_DIR=" then
    let value := trimMatches '\'' (trimMatches '"' (((splitAtChar '=' l).map Prod.snd).getD []))
    (none, if '$' ∉ value ∧ backtick ∉ value ∧ value ≠ [] then value else pluginDir)
  else if (splitAtText (text "BASH_SOURCE") l).isSome || startsWith l "cd " || startsWith l "export " ||
      startsWith l "if " || l = text "fi" || startsWith l "for " || startsWith l "done" ||
      startsWith l "then" || startsWith l "else" || startsWith l "local " || startsWith l "readonly " then
    (none, pluginDir)
  else
    let cmd :=
      if startsWith l "tmux " then some (l.drop 5)
      else if startsWith l "\"$TMUX_PROGRAM\" " || startsWith l "$TMUX_PROGRAM " then
        some (trim (l.dropWhile (· ≠ ' ')))
      else none
    let expand (name : String) := replaceText (text name) pluginDir
    (cmd.map fun cmd => trim (expand "$CURRENT_DIR" (expand "$\x7bCURRENT_DIR\x7d" (expand "$PLUGIN_DIR"
      (expand "$\x7bPLUGIN_DIR\x7d" cmd)))), pluginDir)

def tmuxCommands (pluginDir : Chars) : List Chars → List Chars
  | [] => []
  | line :: rest =>
    let (cmd, pluginDir) := tmuxCommand pluginDir line
    cmd.toList ++ tmuxCommands pluginDir rest

/-- The configuration files beside a script. -/
def companions (path : Chars) : List Chars :=
  (w.filesIn (w.parent path)).filter fun p => isSuffix (w.fileName p) "_tmux.conf"

/-- The lines of a configuration file with what the hidden variables stand for. -/
def expandLine (l : Chars) (app : App σ) : Chars :=
  if '$' ∈ l then expandHiddenVars app.environment l else l

/-- What the lines of a file do. -/
def entryActs (e : Entry) (content : Chars) : List (App σ → Act σ) :=
  match e.kind with
  | .conf => (configLines content).filterMap fun
    | .command l => some fun app => lineAct w (expandLine l app) app
    | _ => none
  | .tmux =>
    (tmuxCommands (w.parent e.path) (lines content)).map (lineAct w) ++
      (companions w e.path).map (sourceFile w)
  | .ps1 => (ps1Commands w false (lines content)).1.map (lineAct w)

/-- The state of a load: the files that were reached and those that were applied, and whether it went
on to the end. -/
structure Load (σ : Type) where
  state : σ
  reached : List Entry
  applied : List Entry
  ended : Bool

/-- The application without the account of the load, and with it. -/
def lower (app : App (Load σ)) : App σ := ⟨app.environment, app.rest.state⟩

def raise (app : App (Load σ)) (a : App σ) : App (Load σ) :=
  ⟨a.environment, { app.rest with state := a.rest }⟩

def stop (app : App (Load σ)) : App (Load σ) := { app with rest := { app.rest with ended := false } }

/-- What is given for loading a file goes on where an act loads one. -/
def perform (run : Entry → App (Load σ) → App (Load σ)) (act : App σ → Act σ) (app : App (Load σ)) :
    App (Load σ) :=
  match act (lower app) with
  | .done a => raise app a
  | .panic => stop app
  | .load e before after =>
    let app := run e (raise app before)
    raise app (after (lower app))

/-- The commands of a configuration file, with what is given for loading another. -/
def loadingCommands (run : Entry → App (Load σ) → App (Load σ)) : Commands (Load σ) where
  expandFormat f app := (w.expandFormat f (lower app)).elim ([], stop app) fun r => (r.1, raise app r.2)
  parseConfigLine l := perform run (lineAct w l)

def runContent (run : Entry → App (Load σ) → App (Load σ)) (e : Entry) (content : Chars)
    (app : App (Load σ)) : App (Load σ) :=
  match e.kind with
  | .conf => parseConfigContent (loadingCommands w run) content app
  | _ => (entryActs w e content).foldl (fun app act => perform run act app) app

/-- A load of a file with at most `depth` files open at once, that file with them. -/
def runEntry : ℕ → Entry → App (Load σ) → App (Load σ)
  | depth, e, app =>
    match w.read e.path with
    | none => app
    | some content =>
      match depth with
      | 0 => stop app
      | depth + 1 =>
        let app := { app with rest := { app.rest with reached := e :: app.rest.reached } }
        let app := runContent w (runEntry depth) e content app
        { app with rest := { app.rest with applied := e :: app.rest.applied } }

end

end Winsmux.Config
