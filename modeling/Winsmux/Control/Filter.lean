import Winsmux.Decimal

/-!
# Control mode responses at the client

What a server writes to a control client is read line by line. A response stands between a
`%begin` line and an `%end` or `%error` line with the same command number; where the flags
say that it holds an environment, its body is one frame, and the client shows what the
frame holds in its place. The JSON reader is a library's and a parameter here.
-/
namespace Winsmux.Control
open Json

/-- The field at the front of a text and the fields after it. -/
def splitFields : Text → Text × List Text
  | [] => ([], [])
  | c :: t =>
    let (field, rest) := splitFields t
    if asciiWhitespace c then ([], if field = [] then rest else field :: rest) else (c :: field, rest)

def splitAsciiWhitespace (t : Text) : List Text :=
  let (field, rest) := splitFields t
  if field = [] then rest else field :: rest

def trimLineEnd (line : Text) : Text :=
  (line.reverse.dropWhile fun c => c = 0x0d || c = 0x0a).reverse

/-- The command number and the flags of a line that begins or ends a response. -/
def controlBlockMetadata (line marker : Text) : Option (ℕ × ℕ) :=
  match splitAsciiWhitespace (trimLineEnd line) with
  | [field, timestamp, number, flags] =>
    if field = marker ∧ (parseSigned 64 timestamp).isSome then do
      let number ← parseUnsigned (2 ^ 64) number
      let flags ← parseUnsigned (2 ^ 64) flags
      some (number, flags)
    else none
  | _ => none

def formatLine (marker : Text) (timestamp : ℤ) (number flags : ℕ) : Text :=
  marker ++ 0x20 :: (signedDecimal timestamp ++ 0x20 :: (decimal number ++ 0x20 :: decimal flags))

def formatBegin := formatLine (utf8 "%begin")

def formatEnd := formatLine (utf8 "%end")

def formatError := formatLine (utf8 "%error")

inductive SafeEnvironmentResponse where
  | ok (output : Text)
  | error (message : Text)

def SafeEnvironmentResponse.toJson : SafeEnvironmentResponse → Text
  | ok output => (Value.obj [(utf8 "status", .str (utf8 "ok")), (utf8 "payload", .str output)]).toVec
  | error message => (Value.obj [(utf8 "status", .str (utf8 "error")), (utf8 "payload", .str message)]).toVec

def responsePrefix : Text := 0x00 :: utf8 "winsmux-safe-environment-response-v1 "

def encodeSafeEnvironmentFrame (r : SafeEnvironmentResponse) : Text := responsePrefix ++ r.toJson ++ [0x0a]

def encodeSafeEnvironmentResponse (response : Text) : Text := encodeSafeEnvironmentFrame (.ok response)

def encodeSafeEnvironmentError (error : Text) : Text := encodeSafeEnvironmentFrame (.error error)

/-- The line that is written for a response. -/
def SafeEnvironmentResponse.encoded : SafeEnvironmentResponse → Text
  | ok response => encodeSafeEnvironmentResponse response
  | error message => encodeSafeEnvironmentError message

theorem SafeEnvironmentResponse.encoded_eq (r : SafeEnvironmentResponse) :
    r.encoded = encodeSafeEnvironmentFrame r := by cases r <;> rfl

def incompatibleEnvironmentResponseError : Text :=
  utf8 "the running server does not support safe show-environment responses; restart the server and retry"

section Reader
variable (fromStr : Text → Option SafeEnvironmentResponse)

/-- The frame of a line; there is one error, so it is left out. -/
def decodeSafeEnvironmentResponse (response : Text) : Option SafeEnvironmentResponse := do
  let frame ← response.dropPrefix? responsePrefix
  let frame ← (frame.dropSuffix? [0x0d, 0x0a]).or (frame.dropSuffix? [0x0a])
  if 0x0d ∈ frame ∨ 0x0a ∈ frame then none else fromStr frame

structure ActiveResponse where
  commandNumber : ℕ
  safeEnvironment : Bool
  payloadHandled : Bool

structure ResponseFilter where
  activeResponse : Option ActiveResponse
  deferredNotifications : Text

def ResponseFilter.default : ResponseFilter := ⟨none, []⟩

/-- The flag of a response that holds an environment. -/
def isSafeEnvironment (flags : ℕ) : Bool := flags &&& 2 ≠ 0

/-- The command number of a line that ends a response. -/
def blockEnd (line : Text) : Option ℕ :=
  ((controlBlockMetadata line (utf8 "%end")).or (controlBlockMetadata line (utf8 "%error"))).map Prod.fst

def isNotification (line : Text) : Bool := line.head? = some 0x25

/-- What a frame's line is shown as: an error is a line of its own. -/
def SafeEnvironmentResponse.shown : SafeEnvironmentResponse → Text
  | ok output => output
  | error message => message ++ [0x0a]

def errorLine : Text := incompatibleEnvironmentResponseError ++ [0x0a]

/-- The first line of a safe body that is no notification. -/
def filterPayload (line : Text) (response : ActiveResponse) (deferred : Text) : Text × ResponseFilter :=
  (match decodeSafeEnvironmentResponse fromStr line with
    | some r => deferred ++ r.shown
    | none => errorLine,
    ⟨some { response with payloadHandled := true }, []⟩)

def filterServerLine (line : Text) (s : ResponseFilter) : Text × ResponseFilter :=
  match s.activeResponse with
  | none =>
    match controlBlockMetadata line (utf8 "%begin") with
    | none => (line, s)
    | some (commandNumber, flags) => (line, ⟨some ⟨commandNumber, isSafeEnvironment flags, false⟩, []⟩)
  | some response =>
    match blockEnd line with
    | some commandNumber =>
      let own := response.commandNumber = commandNumber
      (if own ∧ response.safeEnvironment ∧ !response.payloadHandled then errorLine ++ line else line,
        ⟨if own then none else some response, []⟩)
    | none =>
      if !response.safeEnvironment then (line, s)
      else if !response.payloadHandled && isNotification line then
        ([], { s with deferredNotifications := s.deferredNotifications ++ line })
      else if response.payloadHandled then (if isNotification line then line else [], s)
      else filterPayload fromStr line response s.deferredNotifications

/-- What is shown for each line, and the filter after them. -/
def filterLines : ResponseFilter → List Text → List Text × ResponseFilter
  | s, [] => ([], s)
  | s, line :: lines =>
    let (shown, s) := filterServerLine fromStr line s
    let (rest, s) := filterLines s lines
    (shown :: rest, s)

end Reader

section Fields
variable {f t : Text}

theorem splitFields_of_noSpace (h : f.all (!asciiWhitespace ·) = true) : splitFields f = (f, []) := by
  induction f with
  | nil => rfl
  | cons c f ih =>
    obtain ⟨hc, hf⟩ := Bool.and_eq_true_iff.1 h
    rw [Bool.not_eq_true'] at hc
    simp [splitFields, ih hf, hc]

theorem splitFields_append (h : f.all (!asciiWhitespace ·) = true) :
    splitFields (f ++ 0x20 :: t) = (f, splitAsciiWhitespace t) := by
  induction f with
  | nil => rfl
  | cons c f ih =>
    obtain ⟨hc, hf⟩ := Bool.and_eq_true_iff.1 h
    rw [Bool.not_eq_true'] at hc
    simp [splitFields, ih hf, hc]

theorem splitAsciiWhitespace_append (h : f.all (!asciiWhitespace ·) = true) (hne : f ≠ []) :
    splitAsciiWhitespace (f ++ 0x20 :: t) = f :: splitAsciiWhitespace t := by
  rw [splitAsciiWhitespace, splitFields_append h]
  exact if_neg hne

theorem splitAsciiWhitespace_of_noSpace (h : f.all (!asciiWhitespace ·) = true) (hne : f ≠ []) :
    splitAsciiWhitespace f = [f] := by
  rw [splitAsciiWhitespace, splitFields_of_noSpace h]
  exact if_neg hne

theorem noSpace_of_isDigit {c : UInt8} (h : isDigit c = true) : asciiWhitespace c = false := by
  simp only [isDigit, Bool.and_eq_true, decide_eq_true_eq] at h
  have hle : 0x30 ≤ c.toNat := h.1
  have hne (d : UInt8) (hd : d.toNat < 0x30) : c ≠ d := by
    rintro rfl
    omega
  simp [asciiWhitespace, hne 0x20 (by decide), hne 0x09 (by decide), hne 0x0a (by decide),
    hne 0x0c (by decide), hne 0x0d (by decide)]

theorem noSpace_decimal (n : ℕ) : (decimal n).all (!asciiWhitespace ·) = true := by
  rw [List.all_eq_true]
  intro c hc
  rw [noSpace_of_isDigit (isDigit_of_mem_decimal hc)]
  rfl

theorem noSpace_signedDecimal (z : ℤ) : (signedDecimal z).all (!asciiWhitespace ·) = true := by
  rw [signedDecimal]
  split
  · rw [List.all_cons, noSpace_decimal]
    decide
  · exact noSpace_decimal _

theorem signedDecimal_ne_nil (z : ℤ) : signedDecimal z ≠ [] := by
  rw [signedDecimal]
  split
  · exact List.cons_ne_nil _ _
  · exact decimal_ne_nil _

theorem trimLineEnd_newline {line : Text} {c : UInt8} (hlast : line.getLast? = some c)
    (hc : c ≠ 0x0d ∧ c ≠ 0x0a) : trimLineEnd (line ++ [0x0a]) = line := by
  obtain ⟨init, rfl⟩ := List.getLast?_eq_some_iff.1 hlast
  simp [trimLineEnd, hc]

/-- A line that is written for a response is read as one. -/
theorem controlBlockMetadata_formatLine {marker : Text} {timestamp : ℤ} {number flags : ℕ}
    (hmarker : marker.all (!asciiWhitespace ·) = true) (hne : marker ≠ [])
    (hlo : -(2 ^ 63 : ℤ) ≤ timestamp) (hhi : timestamp < 2 ^ 63) (hnumber : number < 2 ^ 64)
    (hflags : flags < 2 ^ 64) :
    controlBlockMetadata (formatLine marker timestamp number flags ++ [0x0a]) marker =
      some (number, flags) := by
  obtain ⟨c, hc⟩ := List.getLast?_isSome.2 (decimal_ne_nil flags) |> Option.isSome_iff_exists.1
  have hdigit : isDigit c = true := isDigit_of_mem_decimal (List.mem_of_getLast? hc)
  have hlast : (formatLine marker timestamp number flags).getLast? = some c := by
    simp [formatLine, List.getLast?_append, List.getLast?_cons, hc]
  have htrim := trimLineEnd_newline hlast ⟨by rintro rfl; contradiction, by rintro rfl; contradiction⟩
  have hfields : splitAsciiWhitespace (formatLine marker timestamp number flags) =
      [marker, signedDecimal timestamp, decimal number, decimal flags] := by
    rw [formatLine, splitAsciiWhitespace_append hmarker hne,
      splitAsciiWhitespace_append (noSpace_signedDecimal _) (signedDecimal_ne_nil _),
      splitAsciiWhitespace_append (noSpace_decimal _) (decimal_ne_nil _),
      splitAsciiWhitespace_of_noSpace (noSpace_decimal _) (decimal_ne_nil _)]
  rw [controlBlockMetadata, htrim, hfields]
  simp only [parseSigned_signedDecimal (w := 64) hlo hhi, parseUnsigned_decimal hnumber,
    parseUnsigned_decimal hflags, Option.isSome_some, and_self, if_true]
  rfl

end Fields
end Winsmux.Control
