import Winsmux.JsonAscii
import Winsmux.Ledger.Evidence
import Winsmux.Ledger.Runs

/-!
# Public paths, references and ids

What a context pack accepts as a path of the repository, as a reference to evidence, as the id
of a test and as its own id. All of them are ASCII, and a path is one that no file system of
Windows takes for a device or a hidden directory.
-/
namespace Winsmux.ContextPack
open Json

def isLower (c : UInt8) : Bool := 0x61 ≤ c && c ≤ 0x7a

def isUpper (c : UInt8) : Bool := 0x41 ≤ c && c ≤ 0x5a

def isLowerOrDigit (c : UInt8) : Bool := isLower c || isDigit c

/-- `str::strip_prefix`. -/
def stripPrefix (front t : Text) : Option Text := if front.isPrefixOf t then some (t.drop front.length) else none

/-- `str::split` at `"::"`. -/
def splitDoubleColon : Text → List Text
  | [] => [[]]
  | [c] => [[c]]
  | c :: d :: t =>
    if c = 0x3a && d = 0x3a then [] :: splitDoubleColon t
    else
      match splitDoubleColon (d :: t) with
      | [] => [[c]]
      | piece :: pieces => (c :: piece) :: pieces

example : splitDoubleColon (utf8 "a::b:::c") = [utf8 "a", utf8 "b", utf8 ":c"] := by decide

def publicRepoPathMaxBytes : ℕ := 240
def publicRefMaxBytes : ℕ := 256
def publicPathComponentMaxBytes : ℕ := 240
def maxIdBytes : ℕ := 256

def canonicalPublicPathKey (value : Text) : Text := toAsciiLowercase value

def isSafeWin32PublicSegment (value : Text) : Bool :=
  if value.isEmpty || publicPathComponentMaxBytes < value.length || value.getLast? = some 0x2e ||
      value.getLast? = some 0x20 || value = utf8 "." || value = utf8 ".." ||
      eqIgnoreAsciiCase value (utf8 ".git") || eqIgnoreAsciiCase value (utf8 ".winsmux") then false
  else
    let basename := (splitOn 0x2e value).headD value
    if eqIgnoreAsciiCase basename (utf8 "con") || eqIgnoreAsciiCase basename (utf8 "prn") ||
        eqIgnoreAsciiCase basename (utf8 "aux") || eqIgnoreAsciiCase basename (utf8 "nul") then false
    else
      match basename with
      | [a, b, c, d] =>
        let front := toAsciiLowercase [a, b, c]
        !(0x31 ≤ d && d ≤ 0x39 && (front = utf8 "com" || front = utf8 "lpt"))
      | _ => true

def isSafePublicPathIdentity (fullValue path : Text) (totalMaxBytes : ℕ) : Bool :=
  !fullValue.isEmpty && fullValue.length ≤ totalMaxBytes && isAscii fullValue && !path.isEmpty &&
    (splitOn 0x2f path).all isSafeWin32PublicSegment

def isPathByte (c : UInt8) : Bool := c = 0x2e || c = 0x5f || c = 0x2d || c = 0x2f

def isSafeRepoPath (value : Text) : Bool :=
  if value.isEmpty || !isAscii value || value.head? = some 0x2f || value.getLast? = some 0x2f ||
      value.contains 0x5c || value.contains 0x3a ||
      !value.all (fun c => isUpper c || isLowerOrDigit c || isPathByte c) then false
  else isSafePublicPathIdentity value value publicRepoPathMaxBytes

/-- What stands behind the kind of a reference. -/
def evidenceTail (value : Text) : Option Text :=
  (stripPrefix (utf8 "evidence:") value).or
    ((stripPrefix (utf8 "context:") value).or (stripPrefix (utf8 "context-packs/") value))

def isSafeEvidenceRef (value : Text) : Bool :=
  if value.isEmpty || !isAscii value || value.contains 0x5c || Ledger.contains value (utf8 "..") ||
      Ledger.contains value (utf8 "//") then false
  else
    match evidenceTail value with
    | none => false
    | some tail =>
      if tail.isEmpty || tail.head? = some 0x2f || tail.getLast? = some 0x2f ||
          !tail.head?.any isLowerOrDigit then false
      else
        tail.all (fun c => isLowerOrDigit c || isPathByte c) &&
          isSafePublicPathIdentity value tail publicRefMaxBytes

def isStableTestId (value : Text) : Bool :=
  if value.isEmpty || maxIdBytes < value.length || !isAscii value then false
  else
    (splitDoubleColon value).all fun segment =>
      !segment.isEmpty && segment.head?.any isLowerOrDigit &&
        segment.all fun c => isLowerOrDigit c || c = 0x2e || c = 0x5f || c = 0x2d

def isContextPackId (value : Text) : Bool :=
  if value.isEmpty || 64 < value.length || !isAscii value then false
  else
    match splitOn 0x2d value with
    | [] => false
    | first :: parts =>
      if first.isEmpty || !first.head?.any isLower || !first.all isLowerOrDigit then false
      else parts.all fun part => !part.isEmpty && part.all isLowerOrDigit

def isLowerHex (value : Text) (expectedLen : ℕ) : Bool :=
  value.length = expectedLen && value.all fun c => isDigit c || (0x61 ≤ c && c ≤ 0x66)

def isSha256 (value : Text) : Bool := (stripPrefix (utf8 "sha256:") value).any (isLowerHex · 64)

example : isSafeRepoPath (utf8 "core/src/context_pack.rs") = true ∧
    isSafeRepoPath (utf8 "core/.WINSMUX/private.json") = false := by
  decide

theorem isAscii_of_isSafeRepoPath {value : Text} (h : isSafeRepoPath value = true) : isAscii value = true := by
  by_contra hascii
  simp [isSafeRepoPath, hascii] at h

theorem isAscii_of_isSafeEvidenceRef {value : Text} (h : isSafeEvidenceRef value = true) : isAscii value = true := by
  by_contra hascii
  simp [isSafeEvidenceRef, hascii] at h

theorem isAscii_of_isStableTestId {value : Text} (h : isStableTestId value = true) : isAscii value = true := by
  by_contra hascii
  simp [isStableTestId, hascii] at h

theorem isAscii_of_isContextPackId {value : Text} (h : isContextPackId value = true) : isAscii value = true := by
  by_contra hascii
  simp [isContextPackId, hascii] at h

theorem isAscii_of_isLowerHex {value : Text} {n : ℕ} (h : isLowerHex value n = true) : isAscii value = true := by
  simp only [isLowerHex, Bool.and_eq_true, List.all_eq_true] at h
  refine isAscii_iff.2 fun c hc => ?_
  have hdigit := h.2 c hc
  simp only [isDigit, Bool.or_eq_true, Bool.and_eq_true, decide_eq_true_eq] at hdigit
  rcases hdigit with ⟨-, hle⟩ | ⟨-, hle⟩
  · exact UInt8.lt_of_le_of_lt hle (by decide)
  · exact UInt8.lt_of_le_of_lt hle (by decide)

theorem isAscii_of_isSha256 {value : Text} (h : isSha256 value = true) : isAscii value = true := by
  simp only [isSha256, stripPrefix] at h
  split at h
  · next hfront =>
    obtain ⟨hex, rfl⟩ := List.isPrefixOf_iff_prefix.1 hfront
    rw [List.drop_left, Option.any_some] at h
    rw [isAscii_append, isAscii_of_isLowerHex h]
    decide
  · cases h

end Winsmux.ContextPack
