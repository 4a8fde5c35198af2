import Winsmux.CharText

/-!
# The content of a configuration file

Lines that end in a backslash are joined with the next. Lines with a percent sign steer which
of the others count: a flat loop keeps one record of three flags for every block that is open.
How a format is expanded and what a line does are given functions of the state.
-/
namespace Winsmux.Config
open CharText

/-- The application while it reads its configuration; everything but the environment is left to
the given functions, processes outside included. -/
structure App (ρ : Type) where
  environment : Chars → Option Chars
  rest : ρ

structure Commands (ρ : Type) where
  expandFormat : Chars → App ρ → Chars × App ρ
  parseConfigLine : Chars → App ρ → App ρ

def joinContinuations (continuation : Chars) : List Chars → List Chars
  | [] => if continuation = [] then [] else [continuation]
  | line :: rest =>
    let trimmed := trimEnd line
    if trimmed.getLast? = some '\\' then
      joinContinuations (continuation ++ trimEndMatches '\\' trimmed ++ [' ']) rest
    else if continuation ≠ [] then (continuation ++ trimmed) :: joinContinuations [] rest
    else trimmed :: joinContinuations [] rest

inductive Line where
  /-- Blank, or a directive there is none of. -/
  | skip
  | ifLine (condition : Chars)
  | elifLine (condition : Chars)
  | elseLine
  | endifLine
  | hidden (name value : Chars)
  | command (line : Chars)
  deriving DecidableEq

def unquote (t : Chars) : Chars := trimMatches '\'' (trimMatches '"' (trim t))

def readLine (line : Chars) : Line :=
  let l := trim line
  if l = [] then .skip
  else if l.head? = some '%' then
    if startsWith l "%if " || startsWith l "%if\t" then .ifLine (unquote (l.drop 3))
    else if startsWith l "%elif " || startsWith l "%elif\t" then .elifLine (unquote (l.drop 5))
    else if l = "%else".toList then .elseLine
    else if l = "%endif".toList then .endifLine
    else if startsWith l "%hidden " then
      match splitAtChar '=' (trim (l.drop 8)) with
      | some (name, value) => .hidden (trim name) (unquote value)
      | none => .skip
    else .skip
  else .command l

def configLines (content : Chars) : List Line :=
  (joinContinuations [] (lines content)).map readLine

def isNameChar (c : Char) : Bool := c.isAlphanum || c = '_'

/-- `expand_hidden_vars` -/
def expandHiddenVars (env : Chars → Option Chars) : Chars → Chars
  | [] => []
  | c :: cs =>
    if c = '$' then
      match _h : (if cs.head? = some '{' then splitAtChar '}' cs.tail else none) with
      | some (name, rest) =>
        (env name).getD ('$' :: '{' :: (name ++ ['}'])) ++ expandHiddenVars env rest
      | none =>
        let name := cs.takeWhile isNameChar
        match if name ≠ [] then env name else none with
        | some value => value ++ expandHiddenVars env (cs.dropWhile isNameChar)
        | none => '$' :: expandHiddenVars env cs
    else c :: expandHiddenVars env cs
termination_by t => t.length
decreasing_by
  · split at _h
    · have hlen := congrArg List.length (eq_append_of_splitAtChar _h)
      simp only [List.length_tail, List.length_append, List.length_cons] at hlen
      simp only [List.length_cons]
      omega
    · cases _h
  · have hlen := (List.dropWhile_suffix isNameChar (l := cs)).length_le
    simp only [List.length_cons]
    omega
  · simp
  · simp

def isTruthyConfig (s : Chars) : Bool :=
  let s := trim s
  s ≠ [] && s ≠ ['0']

structure IfState where
  active : Bool
  satisfied : Bool
  parentActive : Bool
  deriving DecidableEq

/-- Whether lines count under the blocks that are open, the innermost first. -/
def active (ifStack : List IfState) : Bool := (ifStack.head?.map IfState.active).getD true

section
variable {ρ : Type} (cmds : Commands ρ)

/-- Whether a condition holds, and the state its expansion leaves. -/
def holds (condition : Chars) (app : App ρ) : Bool × App ρ :=
  let (expanded, app) := cmds.expandFormat condition app
  (isTruthyConfig expanded, app)

def defineHidden (name value : Chars) (app : App ρ) : App ρ :=
  { app with environment := Function.update app.environment name (some value) }

def runCommand (l : Chars) (app : App ρ) : App ρ :=
  cmds.parseConfigLine (if '$' ∈ l then expandHiddenVars app.environment l else l) app

/-- What one line does to the blocks that are open and to the application. -/
def step (ifStack : List IfState) (app : App ρ) : Line → List IfState × App ρ
  | .skip => (ifStack, app)
  | .ifLine condition =>
    let parentActive := active ifStack
    let (result, app) := if parentActive then holds cmds condition app else (false, app)
    (⟨parentActive && result, result, parentActive⟩ :: ifStack, app)
  | .elifLine condition =>
    match ifStack with
    | [] => ([], app)
    | state :: rest =>
      if state.parentActive && !state.satisfied then
        let (result, app) := holds cmds condition app
        ({ state with active := result, satisfied := state.satisfied || result } :: rest, app)
      else ({ state with active := false } :: rest, app)
  | .elseLine =>
    match ifStack with
    | [] => ([], app)
    | state :: rest =>
      ({ state with active := state.parentActive && !state.satisfied, satisfied := true } :: rest, app)
  | .endifLine => (ifStack.tail, app)
  | .hidden name value => (ifStack, if active ifStack then defineHidden name value app else app)
  | .command l => (ifStack, if active ifStack then runCommand cmds l app else app)

def runLines : List Line → List IfState → App ρ → List IfState × App ρ
  | [], ifStack, app => (ifStack, app)
  | l :: ls, ifStack, app =>
    let (ifStack, app) := step cmds ifStack app l
    runLines ls ifStack app

/-- `parse_config_content` -/
def parseConfigContent (content : Chars) (app : App ρ) : App ρ :=
  (runLines cmds (configLines content) [] app).2

end

end Winsmux.Config
