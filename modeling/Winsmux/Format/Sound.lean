import Winsmux.Format.Expand

/-!
# Formats whose expansion does not stop

Where the code stops, said of the format, the options and the state: the characters that a
chain of modifiers may begin with, the numbers that its arithmetic takes, the variables for
which the rectangles of the panes must fit, those that follow the path to the active pane,
and how deep the modifiers `E` and `T` are nested. What a part of the format stands for is
its plain reading, in which nothing stops and which hands on the position of the pane.
-/
namespace Winsmux.Format
open CharText PathTree Layout

/-- What a text reads as from a position of the pane, and the position that it leaves. -/
abbrev Reading := StateM (Option ℕ)

/-- Where the code stops, the reading takes the value that is at hand. -/
def plain : Effects Reading where
  stop _ a := pure a
  target := get
  atPane pos x := do
    set (some pos)
    let a ← x
    set (none : Option ℕ)
    pure a

/-- What follows a reading holds, of its value and from the position that it leaves. -/
def After {α : Type} (x : Reading α) (q : α → Option ℕ → Prop) (s : Option ℕ) : Prop :=
  q (x.run s).1 (x.run s).2

/-- Each of a list in turn, from the position that the one before it leaves. -/
def Each {α β : Type} (x : α → Reading β) (p : α → Option ℕ → Prop) : List α → Option ℕ → Prop
  | [], _ => True
  | a :: as, s => p a s ∧ After (x a) (fun _ => Each x p as) s

/-- The calls about a part of a text or a value: what they read, and from where they may be
made. -/
structure Calls where
  read : Chars → ℕ → Reading Chars
  Sound : Chars → ℕ → Option ℕ → Prop

def OneByte (c : Char) : Prop := c.toNat < 128

/-- The first character of a segment and the separator after `s` and `e` are cut off as one
byte. -/
def SegmentSound : Chars → Prop
  | [] => True
  | first :: rest => OneByte first ∧ (first = 's' ∨ first = 'e' → ∀ sep ∈ rest.head?, OneByte sep)

def ChainSound (spec : Chars) : Prop := ∀ segment ∈ splitAtDepth0 spec ';', SegmentSound segment

mutual

/-- No split without children is met on the way down a path. -/
def Leads : PathTree Split Pane → List ℕ → Prop
  | .leaf _, _ => True
  | .split _ _, [] => True
  | .split _ children, i :: path => LeadsIn children (min i (children.length - 1)) path

def LeadsIn : List (PathTree Split Pane) → ℕ → List ℕ → Prop
  | [], _, _ => False
  | c :: _, 0, path => Leads c path
  | _ :: cs, i + 1, path => LeadsIn cs i path

end

section
variable (outside : Outside) (app : App)

/-- A number has so many bits, or the build lets it wrap around. -/
def Fits (bits n : ℕ) : Prop := outside.overflowChecks → n < 2 ^ bits

/-- The rectangles of the panes fit, or the build lets their numbers wrap around. -/
def RectsFit (w : Window) : Prop := outside.overflowChecks → w.fits outside app

/-- A variable about the rectangle of a pane, which computes the rectangles if there is one. -/
def EdgeSound (w : Window) (t : Target) (p : Rect → Prop) (s : Option ℕ) : Prop :=
  ∀ pane ∈ w.pane t, RectsFit outside app w ∧
    After (w.rects plain outside app) (fun rects _ => ∀ r ∈ w.rectOf pane.id rects, p r) s

def RightFits (r : Rect) : Prop := Fits outside 16 (r.x + r.width)

def BottomFits (r : Rect) : Prop := Fits outside 16 (r.y + r.height)

/-- The variables that do arithmetic or follow a path; the others never stop. -/
def WindowVarSound (w : Window) (winIdx : ℕ) (t : Target) (var : Chars) (s : Option ℕ) : Prop :=
  match String.ofList var with
  | "window_index" => Fits outside 64 (winIdx + app.windowBaseIndex)
  | "pane_index" => Fits outside 64 (t.pos + app.paneBaseIndex)
  | "client_height" => Fits outside 16 (app.lastWindowArea.height + if app.statusVisible then 1 else 0)
  | "pane_last" => (w.pane t).isSome → app.lastPanePath ≠ [] → Leads w.root app.lastPanePath
  | "window_layout" | "window_visible_layout" => RectsFit outside app w
  | "pane_left" | "pane_top" | "pane_at_top" | "pane_at_left" =>
    EdgeSound outside app w t (fun _ => True) s
  | "pane_right" => EdgeSound outside app w t (RightFits outside) s
  | "pane_bottom" => EdgeSound outside app w t (BottomFits outside) s
  | "pane_at_right" =>
    EdgeSound outside app w t (fun r => RightFits outside r ∧ RightFits outside app.lastWindowArea) s
  | "pane_at_bottom" =>
    EdgeSound outside app w t (fun r => BottomFits outside r ∧ BottomFits outside app.lastWindowArea) s
  | "mouse_line" | "mouse_word" => Leads w.root w.activePath ∧
    After (activePane plain w.root w.activePath) (fun p _ => p.isSome → RectsFit outside app w) s
  | "copy_cursor_word" | "copy_cursor_line" => app.copyPos.isSome → Leads w.root w.activePath
  | "scroll_region_lower" | "alternate_on" => Leads w.root w.activePath
  | _ => True

def VarSound (var : Chars) (winIdx : ℕ) (s : Option ℕ) : Prop :=
  ∀ w ∈ app.windows[winIdx]?, WindowVarSound outside app w winIdx (w.target s) var s

/-- Quotients and remainders must not be those of the least number by `-1`; the other
results must have 64 bits, or the build lets them wrap around. -/
def IntMathSound (op : Char) (a b : ℤ) : Prop :=
  let fits := fun z : ℤ => outside.overflowChecks → -2 ^ 63 ≤ z ∧ z < 2 ^ 63
  match op with
  | '+' => fits (a + b)
  | '-' => fits (a - b)
  | '*' => fits (a * b)
  | '/' | 'm' => ¬(a = -2 ^ 63 ∧ b = -1)
  | _ => True

def MathSound (op : Char) (floating : Bool) (decimals : ℕ) (value : Chars) : Prop :=
  match splitAtDepth0 value ',' with
  | a :: b :: _ =>
    (!floating → IntMathSound outside op ((parseSigned 64 a).getD 0) ((parseSigned 64 b).getD 0)) ∧
      (floating ∨ decimals > 0 → decimals ≤ outside.precisionLimit)
  | _ => True

def ModifierSound (again : Calls) (modifier : Modifier) (value : Chars) (winIdx : ℕ) (s : Option ℕ) : Prop :=
  match modifier with
  | .expand | .expandTime => again.Sound value winIdx s
  | .trim n | .trimWithMarker n _ => n = -2 ^ 31 → !outside.overflowChecks
  | .mathExpr op floating decimals => MathSound outside op floating decimals value
  | .searchContent _ _ => value ≠ [] → ∀ w ∈ app.windows[winIdx]?, Leads w.root w.activePath
  | _ => True

def ModifiersSound (again : Calls) : List Modifier → Chars → ℕ → Option ℕ → Prop
  | [], _, _, _ => True
  | modifier :: modifiers, value, winIdx, s => ModifierSound outside app again modifier value winIdx s ∧
    After (applyModifier plain outside app again.read modifier value winIdx)
      (fun value => ModifiersSound again modifiers value winIdx) s

variable (nested again : Calls)

/-- A format, or a name; texts and numbers stand for themselves. -/
def ValueSound (target : Chars) (winIdx : ℕ) (s : Option ℕ) : Prop :=
  if hasExpr target then nested.Sound target winIdx s
  else target ≠ [] ∧ !isFloat target → VarSound outside app target winIdx s

def readValue (target : Chars) (winIdx : ℕ) : Reading Chars :=
  expandVarOrFormat plain outside app nested.read target winIdx

def TargetSound (modifiers : List Modifier) (target : Chars) (winIdx : ℕ) (s : Option ℕ) : Prop :=
  if modifiers.any Modifier.needsRawTarget then
    Each (readValue outside app nested · winIdx) (ValueSound outside app nested · winIdx)
      (splitAtDepth0 target ',') s
  else ValueSound outside app nested target winIdx s

/-- The chain, what it is applied to and then each of its modifiers. -/
def ModifierChainSound (expr : Chars) (winIdx : ℕ) (s : Option ℕ) : Prop :=
  if (expr.head?).all (· ∉ modifierStarts) ∨ expr.head? = some 'l' then True
  else
    match findModifierColon expr with
    | none => True
    | some (spec, target) => ChainSound spec ∧
      After (parseModifierChain plain spec) (fun modifiers s => modifiers ≠ [] →
        TargetSound outside app nested modifiers target winIdx s ∧
          After (expandTarget plain outside app nested.read modifiers target winIdx)
            (fun value => ModifiersSound outside app again modifiers value winIdx) s) s

def ExpandChainSound (expr : Chars) (winIdx : ℕ) (s : Option ℕ) : Prop :=
  ModifierChainSound outside app nested again expr winIdx s ∧
    After (tryExpandModifierChain plain outside app nested.read again.read expr winIdx)
      (fun result s => result = none → VarSound outside app expr winIdx s) s

def CompareSound (parts : List Chars) (winIdx : ℕ) (s : Option ℕ) : Prop :=
  match parts with
  | lhs :: rhs :: _ => ValueSound outside app nested lhs winIdx s ∧
    After (readValue outside app nested lhs winIdx) (fun _ => ValueSound outside app nested rhs winIdx) s
  | _ => True

/-- The parts up to the one that decides. -/
def BooleanSound (decides : Bool) : List Chars → ℕ → Option ℕ → Prop
  | [], _, _ => True
  | part :: parts, winIdx, s => ValueSound outside app nested part winIdx s ∧
    After (readValue outside app nested part winIdx)
      (fun val s => isTruthy val ≠ decides → BooleanSound decides parts winIdx s) s

def ConditionSound (cond : Chars) (winIdx : ℕ) (s : Option ℕ) : Prop :=
  match findComparisonInCond cond with
  | some (lhs, _, rhs) => nested.Sound lhs winIdx s ∧
    After (nested.read lhs winIdx) (fun _ => nested.Sound rhs winIdx) s
  | none => nested.Sound (if cond.contains '#' then cond else '#' :: '{' :: (cond ++ ['}'])) winIdx s

/-- The condition and the branch that it chooses. -/
def ConditionalSound (body : Chars) (winIdx : ℕ) (s : Option ℕ) : Prop :=
  ConditionSound nested (splitConditional body).1 winIdx s ∧
    After (expandCondition nested.read (splitConditional body).1 winIdx)
      (fun isTrue => nested.Sound
        (if isTrue then (splitConditional body).2.1 else (splitConditional body).2.2) winIdx) s

/-- A loop over panes sets the position before each of them. -/
def LoopSound (kind : Char) (fmt : Chars) (winIdx : ℕ) (s : Option ℕ) : Prop :=
  match kind with
  | 'W' => Each (nested.read fmt) (nested.Sound fmt) (List.range app.windows.length) s
  | 'P' => ∀ pos < app.paneCount winIdx, nested.Sound fmt winIdx (some pos)
  | _ => nested.Sound fmt winIdx s

def ExpressionSound (expr : Chars) (winIdx : ℕ) (s : Option ℕ) : Prop :=
  match expr with
  | [] => True
  | first :: body =>
    if first = '?' then ConditionalSound nested body winIdx s
    else
      match comparisonOp expr with
      | some (_, parts) => CompareSound outside app nested parts winIdx s
      | none =>
        match stripPrefix ['|', '|', ':'] expr with
        | some rest => BooleanSound outside app nested true (splitAtDepth0 rest ',') winIdx s
        | none =>
          match stripPrefix ['&', '&', ':'] expr with
          | some rest => BooleanSound outside app nested false (splitAtDepth0 rest ',') winIdx s
          | none =>
            match loopOf expr with
            | some (kind, fmt) => LoopSound app nested kind fmt winIdx s
            | none => ExpandChainSound outside app nested again expr winIdx s

/-- The shorthands for the indices of the window and of its active pane. -/
def ShortSound (winIdx : ℕ) (c : Char) : Prop :=
  match c with
  | 'I' => winIdx < app.windows.length → Fits outside 64 (winIdx + app.windowBaseIndex)
  | 'P' => ∀ w ∈ app.windows[winIdx]?, Fits outside 64 (w.activePanePos + app.paneBaseIndex)
  | _ => True

def TokenSound (winIdx : ℕ) (s : Option ℕ) : Token → Prop
  | .expr inner => ExpressionSound outside app nested again inner winIdx s
  | .short c => ShortSound outside app winIdx c
  | .shell _ | .char _ => True

def TextSound (fmt : Chars) (winIdx : ℕ) : Option ℕ → Prop :=
  Each (expandToken plain outside app nested.read again.read (fmt.contains '%') winIdx)
    (fun token s => TokenSound outside app nested again winIdx s token) (tokens fmt)

end

section
variable {m : Type → Type} [Monad m] (fx : Effects m) (outside : Outside) (app : App)

/-- The calls about parts of a text, over those about values; `k` bounds the lengths. -/
def expandParts (again : Chars → ℕ → m Chars) : ℕ → Chars → ℕ → m Chars
  | 0, _, _ => fx.stop .depth []
  | k + 1, fmt, winIdx => expandText fx outside app (expandParts again k) again fmt winIdx

/-- With `E` and `T` nested less than so deep. -/
def expandNested : ℕ → Chars → ℕ → m Chars
  | 0, _, _ => fx.stop .depth []
  | d + 1, fmt, winIdx => expandParts fx outside app (expandNested d) (fmt.length + 1) fmt winIdx

end

section
variable (outside : Outside) (app : App)

/-- The parts of a text are shorter than the text. -/
def PartsSound (again : Calls) : ℕ → Chars → ℕ → Option ℕ → Prop
  | 0, _, _, _ => False
  | k + 1, fmt, winIdx, s =>
    TextSound outside app ⟨expandParts plain outside app again.read k, PartsSound again k⟩ again fmt winIdx s

/-- Nothing in a format makes its expansion stop, and `E` and `T` are nested less than so
deep. -/
def Sound : ℕ → Chars → ℕ → Option ℕ → Prop
  | 0, _, _, _ => False
  | d + 1, fmt, winIdx, s =>
    PartsSound outside app ⟨expandNested plain outside app d, Sound d⟩ (fmt.length + 1) fmt winIdx s

end
end Winsmux.Format
