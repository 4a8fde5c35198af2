import Winsmux.Command.CommandLine

/-!
# Sending keys

How the arguments of `send-keys` become what is written to the active pane: the connection takes
out what looks like an option and joins the rest with blanks, the server cuts that text at white
space and writes every word as a key or as itself. The server is outside copy mode and no overlay
takes the input.
-/
namespace Winsmux.Command
open CharText

/-- `str::to_uppercase`, given what it does with the characters that are not ASCII. -/
def toUppercase (upper : Char → Chars) (t : Chars) : Chars :=
  t.flatMap fun c => if c.toNat < 0x80 then [c.toUpper] else upper c

def esc : Char := '\x1b'

/-- A control sequence. -/
def csi (t : String) : Chars := esc :: '[' :: t.toList

/-- The keys that go by a name alone. -/
def namedKeys : List (String × Chars) :=
  [("ENTER", ['\r']), ("TAB", ['\t']), ("BTAB", csi "Z"), ("BACKTAB", csi "Z"), ("ESCAPE", [esc]),
    ("ESC", [esc]), ("SPACE", [' ']), ("BSPACE", ['\x7f']), ("BACKSPACE", ['\x7f']),
    ("UP", csi "A"), ("DOWN", csi "B"), ("RIGHT", csi "C"), ("LEFT", csi "D"), ("HOME", csi "H"),
    ("END", csi "F"), ("PAGEUP", csi "5~"), ("PPAGE", csi "5~"), ("PAGEDOWN", csi "6~"),
    ("NPAGE", csi "6~"), ("DELETE", csi "3~"), ("DC", csi "3~"), ("INSERT", csi "2~"),
    ("IC", csi "2~"), ("F1", [esc, 'O', 'P']), ("F2", [esc, 'O', 'Q']), ("F3", [esc, 'O', 'R']),
    ("F4", [esc, 'O', 'S']), ("F5", csi "15~"), ("F6", csi "17~"), ("F7", csi "18~"),
    ("F8", csi "19~"), ("F9", csi "20~"), ("F10", csi "21~"), ("F11", csi "23~"),
    ("F12", csi "24~")]

def namedKey (upper : Chars) : Option Chars := (namedKeys.find? fun k => k.1.toList = upper).map Prod.snd

/-- `encode_fkey` with a modifier. -/
def encodeFkey (n m : ℕ) : Option Chars :=
  let letter (c : Char) : Option Chars := some (csi "1;" ++ decimal m ++ [c])
  let tilde (code : ℕ) : Option Chars := some (csi "" ++ decimal code ++ ';' :: decimal m ++ ['~'])
  match n with
  | 1 => letter 'P'
  | 2 => letter 'Q'
  | 3 => letter 'R'
  | 4 => letter 'S'
  | 5 => tilde 15
  | 6 => tilde 17
  | 7 => tilde 18
  | 8 => tilde 19
  | 9 => tilde 20
  | 10 => tilde 21
  | 11 => tilde 23
  | 12 => tilde 24
  | _ => none

/-- The modifiers in front of a key, as bits, and the key behind them. -/
def modifiers (bits : ℕ) : Chars → ℕ × Chars
  | 'C' :: '-' :: rest => modifiers (bits ||| 4) rest
  | 'M' :: '-' :: rest => modifiers (bits ||| 2) rest
  | 'S' :: '-' :: rest => modifiers (bits ||| 1) rest
  | rest => (bits, rest)

/-- The control sequences of the keys that can have modifiers: what stands in front of the modifier
and what behind it. -/
def modifiedKeys : List (String × String × Char) :=
  [("ENTER", "13;", '~'), ("RETURN", "13;", '~'), ("CR", "13;", '~'), ("TAB", "9;", '~'),
    ("LEFT", "1;", 'D'), ("RIGHT", "1;", 'C'), ("UP", "1;", 'A'), ("DOWN", "1;", 'B'),
    ("HOME", "1;", 'H'), ("END", "1;", 'F'), ("INSERT", "2;", '~'), ("IC", "2;", '~'),
    ("DELETE", "3;", '~'), ("DC", "3;", '~'), ("PAGEUP", "5;", '~'), ("PPAGE", "5;", '~'),
    ("PAGEDOWN", "6;", '~'), ("NPAGE", "6;", '~')]

/-- `parse_modified_special_key` -/
def parseModifiedSpecialKey (upper : Char → Chars) (s : Chars) : Option Chars :=
  let (bits, rest) := modifiers 0 (toUppercase upper s)
  if bits = 0 then none
  else if rest = "BTAB".toList ∨ rest = "BACKTAB".toList then
    some (csi "9;" ++ decimal ((bits ||| 1) + 1) ++ ['~'])
  else
    match modifiedKeys.find? fun k => k.1.toList = rest with
    | some (_, front, last) => some (csi front ++ decimal (bits + 1) ++ [last])
    | none =>
      if rest.head? = some 'F' ∧ 2 ≤ rest.length then
        (parseUnsigned 8 rest.tail).bind fun n => encodeFkey n (bits + 1)
      else none

/-- The control character of a letter. -/
def control (c : Char) : Char := Char.ofNat (c.toLower.toNat % 256 % 32)

/-- What is written for a word that is taken for a key; `none` where the word is text. -/
def keyWrites (upper : Char → Chars) (key : Chars) : Option (List Chars) :=
  let keyUpper := toUppercase upper key
  match namedKey keyUpper with
  | some seq => some [seq]
  | none =>
    match parseModifiedSpecialKey upper keyUpper with
    | some seq => some [seq]
    | none =>
      if startsWith keyUpper "C-M-" || startsWith keyUpper "C-m-" then
        some ((key[4]?).map fun c => [esc, control c]).toList
      else if startsWith keyUpper "C-" then some ((keyUpper[2]?).map fun c => [control c]).toList
      else if startsWith keyUpper "M-" then some ((key[2]?).map fun c => [esc, c]).toList
      else none

/-- The words in front of which no blank is written. -/
def isSpecial (upper : Char → Chars) (key : Chars) : Bool :=
  let keyUpper := toUppercase upper key
  (namedKey keyUpper).isSome || startsWith keyUpper "C-" || startsWith keyUpper "M-" ||
    startsWith keyUpper "S-"

/-- The blank behind a word that is text. -/
def blankBefore (upper : Char → Chars) (next : Option Chars) : List Chars :=
  match next with
  | some key => if isSpecial upper key then [] else [[' ']]
  | none => []

/-- The texts that are written for words, in order. -/
def sendWords (upper : Char → Chars) : List Chars → List Chars
  | [] => []
  | key :: rest =>
    match keyWrites upper key with
    | some writes => writes ++ sendWords upper rest
    | none => key :: (blankBefore upper rest.head? ++ sendWords upper rest)

/-- The arguments without `-t` and its value. -/
@[grind =] def withoutTarget : List Chars → List Chars
  | [] => []
  | [a] => if a = ['-', 't'] then [] else [a]
  | a :: b :: rest => if a = ['-', 't'] then withoutTarget rest else a :: withoutTarget (b :: rest)

/-- The arguments that are no options, nor the count of one. -/
@[grind =] def keyArgs (previous : Chars) : List Chars → List Chars
  | [] => []
  | a :: rest =>
    if a.head? = some '-' ∨ previous = ['-', 'N'] then keyArgs a rest else a :: keyArgs a rest

def repeatCount (args : List Chars) : ℕ :=
  match (args.dropWhile (· ≠ ['-', 'N'])).tail.head? with
  | some count => max ((parseUnsigned 64 count).getD 1) 1
  | none => 1

inductive Request where
  | sendKeysX (cmd : Chars)
  | sendPaste (text : Chars)
  | sendKeys (keys : Chars) (literal : Bool)
  deriving DecidableEq

/-- The requests of `send-keys`. -/
def sendKeysRequests (args : List Chars) : List Request :=
  let keys := joinArgs (keyArgs [] args)
  List.replicate (repeatCount args) <|
    if ['-', 'X'] ∈ args then
      .sendKeysX (joinArgs (args.filter fun a => a ≠ ['-', 'X'] ∧ a.head? ≠ some '-'))
    else if ['-', 'p'] ∈ args then .sendPaste keys
    else .sendKeys keys (['-', 'l'] ∈ args)

/-- What `CtrlReq::SendKeys` writes. -/
def sendKeysWrites (upper : Char → Chars) (keys : Chars) (literal : Bool) : List Chars :=
  if literal then [keys] else sendWords upper (splitWhitespace keys)

/-- The texts that a command line has written to the active pane as keys, if it is one request to
send keys. -/
def sent (upper : Char → Chars) (line : Chars) : Option (List Chars) :=
  match sendKeysRequests (withoutTarget (parseCommandLine line).tail) with
  | [.sendKeys keys literal] => some (sendKeysWrites upper keys literal)
  | _ => none

def sendKeysOptions (literal dashes : Bool) : List Chars :=
  (if literal then [['-', 'l']] else []) ++ (if dashes then [['-', '-']] else [])

/-- A command line with its options and, behind two dashes or not, its arguments. -/
def sendKeysLine (literal dashes : Bool) (args : List Chars) : Chars :=
  joinArgs (("send-keys".toList :: (sendKeysOptions literal dashes ++ args)).map quoteArg)

end Winsmux.Command
