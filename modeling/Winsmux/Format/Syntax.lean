import Winsmux.CharText

/-!
# The syntax of formats

A format is text with `#{…}` expressions, `#(…)` commands and `#X` shorthands; an
expression is a conditional, a comparison, a loop, a chain of modifiers before a colon or
a name. Text is a list of characters: the source goes through bytes, but all that it looks
for is ASCII, so that its positions are those of characters; where it cuts off one byte
of a longer character it panics, and so does the model.
-/
namespace Winsmux.Format
open CharText

/-- Why an expansion stops without a result. -/
inductive Stop where
  /-- The calls are nested as deep as allowed. -/
  | depth
  /-- A slice from the inside of a character. -/
  | slice
  /-- A result that does not fit its type. -/
  | arithmetic
  /-- A formatting precision that is too large. -/
  | precision
  /-- A child of a split that has none. -/
  | childIndex
  deriving DecidableEq

/-- What an expansion does beside computing text: it may stop, where going on would give a
value, and it knows the pane that it is for, by its position. -/
structure Effects (m : Type → Type) where
  stop {α : Type} : Stop → α → m α
  target : m (Option ℕ)
  atPane {α : Type} : ℕ → m α → m α

/-- What stands before the closing brace, and what follows it. -/
@[grind =] def findMatchingBrace : ℕ → Chars → Option (Chars × Chars)
  | _, [] => none
  | depth, '#' :: '{' :: s =>
    (findMatchingBrace (depth + 1) s).map fun r => ('#' :: '{' :: r.1, r.2)
  | depth, c :: s =>
    if c = '}' ∧ depth = 1 then some ([], s)
    else
      (findMatchingBrace (if c = '}' then depth - 1 else depth) s).map fun r => (c :: r.1, r.2)

/-- Text put in front of the first part. -/
def glue (front : Chars) : List Chars → List Chars
  | [] => [front]
  | part :: parts => (front ++ part) :: parts

/-- The parts between delimiters that stand outside expressions and styles and are not
escaped. -/
@[grind =] def splitFrom (delim : Char) : ℕ → Bool → Chars → List Chars
  | _, _, [] => [[]]
  | depth, inStyle, [c] => if c = delim ∧ depth = 0 ∧ !inStyle then [[], []] else [[c]]
  | depth, inStyle, c :: d :: s =>
    if c = '#' ∧ d = '{' then glue [c, d] (splitFrom delim (depth + 1) inStyle s)
    else if c = '}' ∧ depth > 0 then glue [c] (splitFrom delim (depth - 1) inStyle (d :: s))
    else if c = '#' ∧ d = '[' ∧ !inStyle then glue [c, d] (splitFrom delim depth true s)
    else if c = ']' ∧ inStyle then glue [c] (splitFrom delim depth false (d :: s))
    else if c = '#' ∧ d = delim ∧ depth = 0 then glue [c, d] (splitFrom delim depth inStyle s)
    else if c = delim ∧ depth = 0 ∧ !inStyle then [] :: splitFrom delim depth inStyle (d :: s)
    else glue [c] (splitFrom delim depth inStyle (d :: s))

def splitAtDepth0 (s : Chars) (delim : Char) : List Chars := splitFrom delim 0 false s

/-- What stands before and after the first colon outside expressions. -/
@[grind =] def modifierColonFrom : ℕ → Chars → Option (Chars × Chars)
  | _, [] => none
  | depth, '#' :: '{' :: s => (modifierColonFrom (depth + 1) s).map fun r => ('#' :: '{' :: r.1, r.2)
  | depth, c :: s =>
    if c = ':' ∧ depth = 0 then some ([], s)
    else
      (modifierColonFrom (if c = '}' then depth - 1 else depth) s).map fun r => (c :: r.1, r.2)

def findModifierColon (s : Chars) : Option (Chars × Chars) := modifierColonFrom 0 s

/-- The parts of a conditional; a third comma belongs to the false branch. -/
def splitConditional (s : Chars) : Chars × Chars × Chars :=
  match splitAtDepth0 s ',' with
  | [] => ([], [], [])
  | [cond] => (cond, [], [])
  | [cond, yes] => (cond, yes, [])
  | cond :: yes :: no => (cond, yes, [','].intercalate no)

inductive CompareOp where
  | le
  | ge
  | eq
  | ne
  | lt
  | gt
  deriving DecidableEq

def CompareOp.text : CompareOp → Chars
  | .le => ['<', '=']
  | .ge => ['>', '=']
  | .eq => ['=', '=']
  | .ne => ['!', '=']
  | .lt => ['<']
  | .gt => ['>']

/-- In the order in which they are looked for. -/
def compareOps : List CompareOp := [.le, .ge, .eq, .ne, .lt, .gt]

/-- By code points, which is the order of the bytes. -/
def CompareOp.holds : CompareOp → Chars → Chars → Bool
  | .le, a, b => !decide (b < a)
  | .ge, a, b => !decide (a < b)
  | .eq, a, b => a = b
  | .ne, a, b => a ≠ b
  | .lt, a, b => a < b
  | .gt, a, b => b < a

/-- The two sides of an operator outside expressions; not both may be empty. -/
@[grind =] def operatorFrom (op : Chars) : ℕ → Chars → Chars → Option (Chars × Chars)
  | _, _, [] => none
  | depth, before, '#' :: '{' :: s => operatorFrom op (depth + 1) (before ++ ['#', '{']) s
  | depth, before, c :: s =>
    if c = '}' ∧ depth > 0 then operatorFrom op (depth - 1) (before ++ [c]) s
    else if depth = 0 ∧ op.isPrefixOf (c :: s) ∧ (before ≠ [] ∨ (c :: s).drop op.length ≠ []) then
      some (before, (c :: s).drop op.length)
    else operatorFrom op depth (before ++ [c]) s

def findComparisonInCond (cond : Chars) : Option (Chars × CompareOp × Chars) :=
  compareOps.findSome? fun op => (operatorFrom op.text 0 [] cond).map fun r => (r.1, op, r.2)

def stripPrefix (front s : Chars) : Option Chars :=
  if front.isPrefixOf s then some (s.drop front.length) else none

/-- The letter of a loop and its format. -/
def loopOf : Chars → Option (Char × Chars)
  | c :: ':' :: d :: s => if c ∈ ['W', 'P', 'S'] then some (c, d :: s) else none
  | _ => none

def dropSign : Chars → Chars
  | '+' :: s | '-' :: s => s
  | s => s

/-- An exponent, or none. -/
def isExponent : Chars → Bool
  | [] => true
  | c :: s => (c = 'e' || c = 'E') && (digits (dropSign s)).isSome

/-- Whether text reads as a floating-point number. -/
def isFloat (s : Chars) : Bool :=
  let s := dropSign s
  let word := s.map Char.toLower
  word = "inf".toList || word = "infinity".toList || word = "nan".toList ||
    let whole := s.takeWhile Char.isDigit
    match s.dropWhile Char.isDigit with
    | '.' :: rest =>
      let frac := rest.takeWhile Char.isDigit
      (whole ≠ [] || frac ≠ []) && isExponent (rest.dropWhile Char.isDigit)
    | rest => whole ≠ [] && isExponent rest

def decimalInt (z : ℤ) : Chars := if z < 0 then '-' :: decimal z.natAbs else decimal z.natAbs

inductive Modifier where
  | time
  | basename
  | dirname
  | expand
  | expandTime
  | quote
  | substitute (pattern replacement : Chars) (caseInsensitive : Bool)
  | trim (n : ℤ)
  | trimWithMarker (n : ℤ) (marker : Chars)
  | pad (n : ℤ)
  | mathExpr (op : Char) (floating : Bool) (decimals : ℕ)
  | match (regex caseInsensitive : Bool)
  | searchContent (regex caseInsensitive : Bool)
  | width

section chain
variable {m : Type → Type} [Monad m] (fx : Effects m)

/-- Text after its first byte; inside a character, what stands after the character. -/
def afterFirstByte : Chars → m Chars
  | [] => pure []
  | c :: s => if c.toNat < 128 then pure s else fx.stop .slice s

/-- At most `n` parts between separators. -/
def splitn (n : ℕ) (sep : Char) (s : Chars) : List Chars :=
  match n with
  | 0 => []
  | 1 => [s]
  | n + 2 =>
    match s.dropWhile (· ≠ sep) with
    | [] => [s]
    | _ :: rest => s.takeWhile (· ≠ sep) :: splitn (n + 1) sep rest

def number (s : Chars) : ℤ := (parseSigned 32 s).getD 0

/-- One segment of a chain. -/
def parseSingleModifier (spec : Chars) : m (Option Modifier) :=
  match spec with
  | [] => pure none
  | first :: _ => do
    let rest ← afterFirstByte fx spec
    match first with
    | 't' => pure (some .time)
    | 'b' => pure (some .basename)
    | 'd' => pure (some .dirname)
    | 'E' => pure (some .expand)
    | 'T' => pure (some .expandTime)
    | 'q' => pure (some .quote)
    | 'w' => pure (some .width)
    | '=' =>
      match rest with
      | [] => pure (some (.trim 0))
      | sep :: inner =>
        if sep = '/' ∨ sep = '|' then
          let parts := splitn 2 sep inner
          pure (some (.trimWithMarker (number (parts.getD 0 [])) (parts.getD 1 [])))
        else pure (some (.trim (number rest)))
    | 'p' => pure (some (.pad (number rest)))
    | 's' =>
      match rest with
      | [] => pure none
      | sep :: _ => do
        let inner ← afterFirstByte fx rest
        let parts := splitn 3 sep inner
        pure (some (.substitute (parts.getD 0 []) (parts.getD 1 []) ((parts.getD 2 []).contains 'i')))
    | 'e' =>
      match rest with
      | [] => pure none
      | sep :: _ => do
        let inner ← afterFirstByte fx rest
        let parts := splitn 3 sep inner
        let floating := (parts.getD 1 []).contains 'f'
        let decimals := ((parts[2]?).bind (parseUnsigned 32)).getD (if floating then 2 else 0)
        pure (some (.mathExpr ((parts.getD 0 []).head?.getD '+') floating decimals))
    | 'm' => pure (some (.match (rest.contains 'r') (rest.contains 'i')))
    | 'C' => pure (some (.searchContent (rest.contains 'r') (rest.contains 'i')))
    | _ => pure none

/-- The modifiers of a chain, segments that are none left out. -/
def parseModifierChain (spec : Chars) : m (List Modifier) := do
  let parsed ← (splitAtDepth0 spec ';').mapM (parseSingleModifier fx)
  pure (parsed.filterMap id)

end chain

def modifierStarts : Chars := "tbdlETqsmCep=Nw".toList

/-- A piece of a format. -/
inductive Token where
  | expr (inner : Chars)
  | shell (cmd : Chars)
  | short (c : Char)
  | char (c : Char)

def shorthands : Chars := ['S', 'I', 'W', 'T', 'P', 'F', 'H', 'h', 'D', '#', ',']

/-- What a `#` before `d` begins, and what follows it. -/
def special (d : Char) (s : Chars) : Option (Token × Chars) :=
  if d = '{' then (findMatchingBrace 1 s).map fun r => (.expr r.1, r.2)
  else if d = '(' then
    match s.dropWhile (· ≠ ')') with
    | [] => none
    | _ :: rest => some (.shell (s.takeWhile (· ≠ ')')), rest)
  else if d ∈ shorthands then some (.short d, s)
  else none

/-- The pieces of a text of at most `n` characters. -/
@[grind =] def lex : ℕ → Chars → List Token
  | 0, _ => []
  | _ + 1, [] => []
  | n + 1, [c] => .char c :: lex n []
  | n + 1, c :: d :: s =>
    if c = '#' then
      match special d s with
      | some (token, rest) => token :: lex n rest
      | none => .char c :: lex n (d :: s)
    else .char c :: lex n (d :: s)

def tokens (fmt : Chars) : List Token := lex fmt.length fmt

end Winsmux.Format
