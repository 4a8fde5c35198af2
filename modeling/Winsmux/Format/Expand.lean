import Winsmux.Format.Variables

/-!
# The expansion of formats

Every function of the engine over the one that they call in turn, the expansion of a
format: `nested` expands a part of the text at hand, `again` a value that the modifiers `E`
and `T` expand once more. The knot is tied by the number of calls that may be nested. The
code's own effects are those of `Run`: it stops where Rust panics, and a thread-local
variable holds the position of the pane, which a loop over panes sets and then clears.
-/
namespace Winsmux.Format
open CharText Layout

def isTruthy (s : Chars) : Bool := s ≠ [] && s ≠ ['0'] && s ≠ ['o', 'f', 'f'] && s ≠ ['n', 'o']

/-- `%` doubled. -/
def escapeStrftimePercent (s : Chars) : Chars := s.flatMap fun c => if c = '%' then ['%', '%'] else [c]

def quoted : Chars := "()[]\x7b\x7d$\\'\"\x60!#&|;<> \t\n".toList

def quote (s : Chars) : Chars := s.flatMap fun c => if c ∈ quoted then ['\\', c] else [c]

/-- Bytes against a pattern; `star` is what stands after the last star, and the text that it
was tried on. -/
def globLoop : Option (List UInt8 × List UInt8) → List UInt8 → List UInt8 → Bool
  | _, pattern, [] => pattern.all (· = 0x2a)
  | star, c :: pattern, b :: text =>
    if c = 0x3f ∨ c = b then globLoop star pattern text
    else if c = 0x2a then globLoop (some (pattern, b :: text)) pattern (b :: text)
    else
      match star with
      | some (p, _ :: t) => globLoop (some (p, t)) p t
      | _ => false
  | some (p, _ :: t), [], _ :: _ => globLoop (some (p, t)) p t
  | _, [], _ :: _ => false
  termination_by star pattern text =>
    (star.elim (pattern.length + 1) fun s => max s.1.length pattern.length,
      star.elim 0 fun s => s.2.length, text.length)
  decreasing_by
    all_goals simp only [Option.elim, List.length_cons, Prod.lex_def]
    · cases star <;> simp
      omega
    · cases star <;> simp
    · omega
    · omega

/-- `?` stands for one byte. -/
def globMatch (outside : Outside) (pattern text : Chars) (caseInsensitive : Bool) : Bool :=
  let folded := fun s => if caseInsensitive then outside.lowercase s else s
  globLoop none (Json.utf8 (String.ofList (folded pattern))) (Json.utf8 (String.ofList (folded text)))

def caseFlag (caseInsensitive : Bool) (pattern : Chars) : Chars :=
  if caseInsensitive then "(?i)".toList ++ pattern else pattern

/-- The codes of a time filled in, where the text has any and they are right. -/
def strftime (outside : Outside) (s : Chars) : Chars :=
  if s.contains '%' then (outside.strftime s).getD s else s

/-- Text with an expression in it. -/
def hasExpr : Chars → Bool
  | [] => false
  | '#' :: '{' :: _ => true
  | _ :: s => hasExpr s

section engine
variable {m : Type → Type} [Monad m] (fx : Effects m) (outside : Outside) (app : App)

/-- A result of 64 bits with a sign. -/
def narrowSigned (z : ℤ) : m ℤ :=
  if -2 ^ 63 ≤ z ∧ z < 2 ^ 63 then pure z
  else if outside.overflowChecks then fx.stop .arithmetic (z.bmod (2 ^ 64))
  else pure (z.bmod (2 ^ 64))

/-- A quotient or a remainder: none for zero, and the least number by `-1` stops every build. -/
def divided (quotient : ℤ → ℤ → ℤ) (a b : ℤ) : m ℤ :=
  if b = 0 then pure 0
  else if a = -2 ^ 63 ∧ b = -1 then fx.stop .arithmetic ((quotient a b).bmod (2 ^ 64))
  else pure (quotient a b)

def intMath (op : Char) (a b : ℤ) : m ℤ :=
  match op with
  | '+' => narrowSigned fx outside (a + b)
  | '-' => narrowSigned fx outside (a - b)
  | '*' => narrowSigned fx outside (a * b)
  | '/' => divided fx Int.tdiv a b
  | 'm' => divided fx Int.tmod a b
  | _ => pure 0

def precision (decimals : ℕ) : m ℕ :=
  if decimals ≤ outside.precisionLimit then pure decimals else fx.stop .precision outside.precisionLimit

def mathExpr (op : Char) (floating : Bool) (decimals : ℕ) (value : Chars) : m Chars :=
  match splitAtDepth0 value ',' with
  | a :: b :: _ =>
    if floating then do
      let prec ← precision fx outside decimals
      pure (outside.floatMath op a b prec)
    else do
      let r ← intMath fx outside op ((parseSigned 64 a).getD 0) ((parseSigned 64 b).getD 0)
      if decimals > 0 then do
        let prec ← precision fx outside decimals
        pure (outside.floatText r prec)
      else pure (decimalInt r)
  | _ => pure ['0']

/-- `-n` of 32 bits as a length. -/
def negated (n : ℤ) : m ℕ :=
  if n = -2 ^ 31 then
    if outside.overflowChecks then fx.stop .arithmetic (2 ^ 64 - 2 ^ 31) else pure (2 ^ 64 - 2 ^ 31)
  else pure n.natAbs

def trimWithMarker (n : ℤ) (marker value : Chars) : m Chars :=
  if n = 0 then pure value
  else if n > 0 then
    pure (if value.length > n.natAbs then value.take n.natAbs ++ marker else value)
  else do
    let len ← negated fx outside n
    pure (if value.length > len then marker ++ value.drop (value.length - len) else value)

def pad (n : ℤ) (value : Chars) : Chars :=
  let spaces := List.replicate (n.natAbs - value.length) ' '
  if n > 0 then value ++ spaces else spaces ++ value

def matchExpr (regex caseInsensitive : Bool) (value : Chars) : Chars :=
  match splitAtDepth0 value ',' with
  | pattern :: subject :: _ =>
    flag (if regex then (outside.isMatch (caseFlag caseInsensitive pattern) subject).getD false
      else globMatch outside pattern subject caseInsensitive)
  | _ => ['0']

def searchContent (regex caseInsensitive : Bool) (value : Chars) (winIdx : ℕ) : m Chars :=
  if value = [] then pure []
  else
    match app.windows[winIdx]? with
    | none => pure []
    | some w => aboutActive fx w [] fun p => pure (outside.search p regex caseInsensitive value)

variable (nested again : Chars → ℕ → m Chars)

def applyModifier (modifier : Modifier) (value : Chars) (winIdx : ℕ) : m Chars :=
  match modifier with
  | .time => pure (((parseSigned 64 value).bind outside.timeText).getD value)
  | .basename => pure ((outside.fileName value).getD value)
  | .dirname => pure ((outside.parent value).getD [])
  | .expand => again value winIdx
  | .expandTime => do
    let expanded ← again value winIdx
    pure (strftime outside expanded)
  | .quote => pure (quote value)
  | .trim n => trimWithMarker fx outside n [] value
  | .trimWithMarker n marker => trimWithMarker fx outside n marker value
  | .pad n => pure (pad n value)
  | .substitute pattern replacement caseInsensitive =>
    pure ((outside.substitute (caseFlag caseInsensitive pattern) replacement value).getD value)
  | .mathExpr op floating decimals => mathExpr fx outside op floating decimals value
  | .match regex caseInsensitive => pure (matchExpr outside regex caseInsensitive value)
  | .searchContent regex caseInsensitive => searchContent fx outside app regex caseInsensitive value winIdx
  | .width => pure (decimal value.length)

/-- In the order of the chain. -/
def applyModifiers : List Modifier → Chars → ℕ → m Chars
  | [], value, _ => pure value
  | modifier :: modifiers, value, winIdx => do
    let value ← applyModifier fx outside app again modifier value winIdx
    applyModifiers modifiers value winIdx

/-- A format, a number, a variable, an option or else the text itself. -/
def expandVarOrFormat (target : Chars) (winIdx : ℕ) : m Chars :=
  if hasExpr target then nested target winIdx
  else if target = [] ∨ isFloat target then pure target
  else do
    let val ← expandVar fx outside app target winIdx
    pure (if val = [] then (app.lookupOption target).getD target else val)

/-- Whether the modifier takes arguments with commas between them. -/
def Modifier.needsRawTarget : Modifier → Bool
  | .mathExpr .. | .match .. => true
  | _ => false

def expandTarget (modifiers : List Modifier) (target : Chars) (winIdx : ℕ) : m Chars :=
  if modifiers.any Modifier.needsRawTarget then do
    let parts ← (splitAtDepth0 target ',').mapM fun p => expandVarOrFormat fx outside app nested p winIdx
    pure ([','].intercalate parts)
  else expandVarOrFormat fx outside app nested target winIdx

/-- None where the text is not a chain of modifiers. -/
def tryExpandModifierChain (expr : Chars) (winIdx : ℕ) : m (Option Chars) :=
  if (expr.head?).all (· ∉ modifierStarts) then pure none
  else
    match findModifierColon expr with
    | none => pure none
    | some (spec, target) =>
      if expr.head? = some 'l' then pure (some target)
      else do
        let modifiers ← parseModifierChain fx spec
        if modifiers.isEmpty then pure none
        else do
          let value ← expandTarget fx outside app nested modifiers target winIdx
          let value ← applyModifiers fx outside app again modifiers value winIdx
          pure (some value)

def compareParts (op : CompareOp) (parts : List Chars) (winIdx : ℕ) : m Chars :=
  match parts with
  | lhs :: rhs :: _ => do
    let a ← expandVarOrFormat fx outside app nested lhs winIdx
    let b ← expandVarOrFormat fx outside app nested rhs winIdx
    pure (flag (op.holds a b))
  | _ => pure ['0']

/-- The operator at the start of an expression, and the parts after it. -/
def comparisonOp (expr : Chars) : Option (CompareOp × List Chars) :=
  compareOps.findSome? fun op =>
    (stripPrefix (op.text ++ [':']) expr).map fun rest => (op, splitAtDepth0 rest ',')

/-- The first part that is as true as `decides` decides. -/
def expandBoolean (decides : Bool) : List Chars → ℕ → m Chars
  | [], _ => pure (flag !decides)
  | part :: parts, winIdx => do
    let val ← expandVarOrFormat fx outside app nested part winIdx
    if isTruthy val = decides then pure (flag decides) else expandBoolean decides parts winIdx

def expandBooleanOr (body : Chars) (winIdx : ℕ) : m Chars :=
  expandBoolean fx outside app nested true (splitAtDepth0 body ',') winIdx

def expandBooleanAnd (body : Chars) (winIdx : ℕ) : m Chars :=
  expandBoolean fx outside app nested false (splitAtDepth0 body ',') winIdx

/-- A condition that names a variable becomes an expression. -/
def expandCondition (cond : Chars) (winIdx : ℕ) : m Bool :=
  match findComparisonInCond cond with
  | some (lhs, op, rhs) => do
    let a ← nested lhs winIdx
    let b ← nested rhs winIdx
    pure (op.holds a b)
  | none => do
    let val ← nested (if cond.contains '#' then cond else '#' :: '{' :: (cond ++ ['}'])) winIdx
    pure (isTruthy val)

def expandConditional (body : Chars) (winIdx : ℕ) : m Chars := do
  let isTrue ← expandCondition nested (splitConditional body).1 winIdx
  nested (if isTrue then (splitConditional body).2.1 else (splitConditional body).2.2) winIdx

/-- How many panes a loop over the panes of a window runs through. -/
def App.paneCount (app : App) (winIdx : ℕ) : ℕ := (app.windows[winIdx]?).elim 0 fun w => w.panes.length

/-- A loop over windows, panes or the one session. -/
def expandLoop (kind : Char) (fmt : Chars) (winIdx : ℕ) : m Chars :=
  match kind with
  | 'W' => do
    let parts ← (List.range app.windows.length).mapM fun wi => nested fmt wi
    pure ([' '].intercalate parts)
  | 'P' => do
    let parts ← (List.range (app.paneCount winIdx)).mapM fun pos => fx.atPane pos (nested fmt winIdx)
    pure ([' '].intercalate parts)
  | _ => nested fmt winIdx

def expandChain (expr : Chars) (winIdx : ℕ) : m Chars := do
  match ← tryExpandModifierChain fx outside app nested again expr winIdx with
  | some result => pure result
  | none => expandVar fx outside app expr winIdx

def expandExpression (expr : Chars) (winIdx : ℕ) : m Chars :=
  match expr with
  | [] => pure []
  | first :: body =>
    if first = '?' then expandConditional nested body winIdx
    else
      match comparisonOp expr with
      | some (op, parts) => compareParts fx outside app nested op parts winIdx
      | none =>
        match stripPrefix ['|', '|', ':'] expr with
        | some rest => expandBooleanOr fx outside app nested rest winIdx
        | none =>
          match stripPrefix ['&', '&', ':'] expr with
          | some rest => expandBooleanAnd fx outside app nested rest winIdx
          | none =>
            match loopOf expr with
            | some (kind, fmt) => expandLoop fx app nested kind fmt winIdx
            | none => expandChain fx outside app nested again expr winIdx

/-- A value in a text whose time codes are filled in later. -/
def protect (hasStrftime : Bool) (s : Chars) : Chars :=
  if hasStrftime then escapeStrftimePercent s else s

def expandShort (hasStrftime : Bool) (winIdx : ℕ) (c : Char) : m Chars :=
  match c with
  | 'S' => pure (protect hasStrftime app.sessionName)
  | 'I' =>
    if winIdx < app.windows.length then decimal <$> narrow fx outside 64 (winIdx + app.windowBaseIndex)
    else pure ['0']
  | 'W' | 'T' => pure ((app.windows[winIdx]?).elim [] fun w => protect hasStrftime w.name)
  | 'P' =>
    match app.windows[winIdx]? with
    | none => pure []
    | some w => decimal <$> narrow fx outside 64 (w.activePanePos + app.paneBaseIndex)
  | 'F' => pure (if winIdx = app.activeIdx then ['*'] else if winIdx = app.lastWindowIdx then ['-'] else [])
  | 'H' | 'h' => pure (protect hasStrftime outside.hostname)
  | 'D' => pure ((app.windows[winIdx]?).elim [] fun w =>
    (if hasStrftime then ['%', '%'] else ['%']) ++ decimal (w.activePaneId.getD 0))
  | c => pure [c]

def expandToken (hasStrftime : Bool) (winIdx : ℕ) : Token → m Chars
  | .expr inner => do
    let expanded ← expandExpression fx outside app nested again inner winIdx
    pure (protect hasStrftime expanded)
  | .shell cmd => pure (protect hasStrftime (outside.shell cmd))
  | .short c => expandShort fx outside app hasStrftime winIdx c
  | .char c => pure [c]

/-- One call of the engine. -/
def expandText (fmt : Chars) (winIdx : ℕ) : m Chars := do
  let hasStrftime := fmt.contains '%'
  let parts ← (tokens fmt).mapM (expandToken fx outside app nested again hasStrftime winIdx)
  pure (if hasStrftime then strftime outside parts.flatten else parts.flatten)

end engine

section
variable {m : Type → Type} [Monad m] (fx : Effects m) (outside : Outside) (app : App)

/-- With at most so many calls one inside another. -/
def expandFormatForWindow : ℕ → Chars → ℕ → m Chars
  | 0, _, _ => fx.stop .depth []
  | n + 1, fmt, winIdx =>
    expandText fx outside app (expandFormatForWindow n) (expandFormatForWindow n) fmt winIdx

end

/-- The position of the pane that the variables are about, where one is set. -/
abbrev Run := StateT (Option ℕ) (Except Stop)

theorem run_bind_eq_ok {α β : Type} {x : Run α} {f : α → Run β} {s : Option ℕ} {r : β × Option ℕ} :
    (x >>= f).run s = .ok r ↔ ∃ a s', x.run s = .ok (a, s') ∧ (f a).run s' = .ok r := by
  rw [StateT.run_bind]
  cases x.run s with
  | error e =>
    refine ⟨fun h => ?_, fun ⟨a, s', ha, _⟩ => ?_⟩
    · cases h
    · cases ha
  | ok p =>
    refine ⟨fun h => ⟨p.1, p.2, rfl, h⟩, fun ⟨a, s', ha, h⟩ => ?_⟩
    cases ha
    exact h

theorem run_bind_ok {α β : Type} {x : Run α} {f : α → Run β} {s s' : Option ℕ} {a : α}
    (h : x.run s = .ok (a, s')) : (x >>= f).run s = (f a).run s' := by
  rw [StateT.run_bind, h]
  rfl

/-- A loop over panes clears the position after each of them. -/
def running : Effects Run where
  stop s _ := throw s
  target := get
  atPane pos x := do
    set (some pos)
    let a ← x
    set (none : Option ℕ)
    pure a

theorem running_atPane_eq_ok {α : Type} {pos : ℕ} {x : Run α} {s s' : Option ℕ} {v : α} :
    (running.atPane pos x).run s = .ok (v, s') ↔ s' = none ∧ ∃ t, x.run (some pos) = .ok (v, t) := by
  simp only [running, run_bind_eq_ok]
  refine ⟨fun ⟨_, _, hset, a, t, hx, _, _, hclear, hp⟩ => ?_, fun ⟨hs, t, hx⟩ => ?_⟩
  · cases hset
    cases hclear
    cases hp
    exact ⟨rfl, t, hx⟩
  · subst hs
    exact ⟨_, _, rfl, v, t, hx, _, _, rfl, rfl⟩

/-- The text that a format expands to, where some number of nested calls is enough. -/
def ExpandsTo (outside : Outside) (app : App) (fmt : Chars) (winIdx : ℕ) (override : Option ℕ)
    (v : Chars) (after : Option ℕ) : Prop :=
  ∃ n, (expandFormatForWindow running outside app n fmt winIdx).run override = .ok (v, after)

end Winsmux.Format
