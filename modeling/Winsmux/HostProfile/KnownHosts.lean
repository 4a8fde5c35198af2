import Mathlib
import Winsmux.Decimal
import Winsmux.TextLines

/-!
# Known hosts

What `ssh -G` reports about an alias, and what the lines of the known hosts files say about
the host. Names are matched as patterns, byte by byte. The digest of a key is a parameter.
-/
namespace Winsmux.HostProfile
open Json

inductive HostProfileError where
  | invalidAlias
  | sshExec
  | unresolved
  | notUtf8
  | port
  | noHostname
  | emptyHostname
  | notRewritten
  | knownHosts
  | noPendingRecord
  | endpointChanged
  | ambiguousOrRevoked
  | noKey
  | fingerprintChanged
  | noRecord
  deriving DecidableEq

inductive UserKnownHosts where
  | unspecified
  | disabled
  | files (paths : List Text)

structure ResolvedHost where
  hostname : Text
  lookupName : Text
  port : ℕ
  user : Text
  proxyjump : Option Text
  userKnownHosts : UserKnownHosts
  globalKnownHosts : List Text

/-- The options of a report, as they are read line by line. -/
structure SshConfig where
  hostname : Option Text
  hostkeyalias : Option Text
  user : Option Text
  port : ℕ
  proxyjump : Option Text
  userKnownHosts : UserKnownHosts
  globalKnownHosts : List Text

def SshConfig.empty : SshConfig := ⟨none, none, none, 22, none, .unspecified, []⟩

def isNone (value : Text) : Bool := eqIgnoreAsciiCase value (utf8 "none")

def parseKnownHostsFiles (value : Text) : List Text :=
  if isNone value then [] else (splitWhitespace value).filter fun path => path ≠ [] && !isNone path

def mergeKnownHostsSpec (current : UserKnownHosts) (value : Text) : UserKnownHosts :=
  if isNone value then .disabled
  else
    match current with
    | .files files => .files (files ++ parseKnownHostsFiles value)
    | .unspecified | .disabled => .files (parseKnownHostsFiles value)

/-- One line of a report. -/
def SshConfig.readLine (config : SshConfig) (raw : Text) : Except HostProfileError SshConfig :=
  let line := trim raw
  if line = [] ∨ line.head? = some 0x23 then .ok config
  else
    let key := toAsciiLowercase (line.takeWhile (!asciiWhitespace ·))
    let value := trim ((line.dropWhile (!asciiWhitespace ·)).drop 1)
    if key = utf8 "hostname" then .ok { config with hostname := some value }
    else if key = utf8 "hostkeyalias" ∧ value ≠ [] ∧ isNone value = false then
      .ok { config with hostkeyalias := some value }
    else if key = utf8 "user" then .ok { config with user := some value }
    else if key = utf8 "port" then
      match parseUnsigned (2 ^ 16) value with
      | some port => .ok { config with port }
      | none => .error .port
    else if key = utf8 "proxyjump" ∧ value ≠ [] then .ok { config with proxyjump := some value }
    else if key = utf8 "userknownhostsfile" then
      .ok { config with userKnownHosts := mergeKnownHostsSpec config.userKnownHosts value }
    else if key = utf8 "globalknownhostsfile" then
      .ok { config with globalKnownHosts := config.globalKnownHosts ++ parseKnownHostsFiles value }
    else .ok config

def readConfig (text : Text) : Except HostProfileError SshConfig :=
  (lines text).foldlM SshConfig.readLine .empty

def SshConfig.resolve (config : SshConfig) : Except HostProfileError ResolvedHost :=
  match config.hostname with
  | none => .error .noHostname
  | some hostname =>
    if hostname = [] then .error .emptyHostname
    else .ok
      { hostname
        lookupName := (config.hostkeyalias.filter (· ≠ [])).getD hostname
        port := config.port
        user := config.user.getD []
        proxyjump := config.proxyjump
        userKnownHosts := config.userKnownHosts
        globalKnownHosts := config.globalKnownHosts }

inductive SshOutput where
  | execFailed
  | failed
  | notUtf8
  | text (stdout : Text)

/-- The options reported for an alias, and the host they resolve to. -/
def resolveSshG (aliasName : Text) (ssh : SshOutput) : Except HostProfileError (SshConfig × ResolvedHost) :=
  match ssh with
  | .execFailed => .error .sshExec
  | .failed => .error .unresolved
  | .notUtf8 => .error .notUtf8
  | .text stdout => do
    let config ← readConfig stdout
    let resolved ← config.resolve
    if eqIgnoreAsciiCase resolved.hostname aliasName then .error .notRewritten else .ok (config, resolved)

/-- A star stands for any bytes, a question mark for one. -/
def sshGlobMatch : Text → Text → Bool
  | [], name => name = []
  | 0x2a :: pattern, name => pattern = [] || name.tails.any (sshGlobMatch pattern ·)
  | 0x3f :: pattern, _ :: name => sshGlobMatch pattern name
  | byte :: pattern, c :: name => c = byte && sshGlobMatch pattern name
  | _ :: _, [] => false

/-- The patterns of a list, without whitespace around them. -/
def patterns (list : Text) : List Text := ((splitOn 0x2c list).map trim).filter (· ≠ [])

def negated (pattern : Text) : Option Text :=
  match pattern with
  | 0x21 :: rest => some rest
  | _ => none

def patternListMatches (list host : Text) : Bool :=
  let host := toAsciiLowercase host
  let positive := (patterns list).any fun p => (negated p).isNone && sshGlobMatch (toAsciiLowercase p) host
  let negative := (patterns list).any fun p => (negated p).any fun rest => sshGlobMatch (toAsciiLowercase rest) host
  positive && !negative

def bracketed (name : Text) (port : ℕ) : Text := 0x5b :: (name ++ 0x5d :: 0x3a :: decimal port)

def hostLookupCandidates (host : ResolvedHost) : List Text :=
  bracketed host.lookupName host.port :: if host.port = 22 then [host.lookupName] else []

def hostNamesMatch (names : Text) (host : ResolvedHost) : Bool :=
  (hostLookupCandidates host).any (patternListMatches names ·)

inductive Entry where
  | key (names blob : Text)
  | revoked (names blob : Text)

def hashed : Text := utf8 "|1|"

/-- The names and the key of a line; its key type is there, but not looked at. -/
def namesAndBlob (t : Text) : Option (Text × Text) :=
  match splitWhitespace t with
  | names :: _ :: blob :: _ => some (names, blob)
  | _ => none

/-- What a line has to say: hashed names and markers but one are passed over. -/
def readEntry (raw : Text) : Option Entry :=
  let line := trim raw
  if line = [] ∨ line.head? = some 0x23 ∨ hashed.isPrefixOf line then none
  else
    match line.dropPrefix? (utf8 "@revoked") with
    | some rest => (namesAndBlob (trim rest)).map fun (names, blob) => .revoked names blob
    | none =>
      if line.head? = some 0x40 then none
      else (namesAndBlob line).map fun (names, blob) => .key names blob

section Digest
variable (sha256 : Text → Text)

def fingerprintBlob (blob : Text) : Text := utf8 "sha256:" ++ sha256 blob

structure Scan where
  revoked : List Text
  found : Option Text
  ambiguous : Bool

def Scan.empty : Scan := ⟨[], none, false⟩

def scanLine (host : ResolvedHost) (s : Scan) (raw : Text) : Scan :=
  match readEntry raw with
  | none => s
  | some (.revoked names blob) =>
    if hashed.isPrefixOf names || hostNamesMatch names host then
      { s with revoked := s.revoked ++ [fingerprintBlob sha256 blob] }
    else s
  | some (.key names blob) =>
    if !hostNamesMatch names host then s
    else
      let fingerprint := fingerprintBlob sha256 blob
      match s.found with
      | none => { s with found := some fingerprint }
      | some existing => if existing ≠ fingerprint then { s with ambiguous := true } else s

def scanKnownHostsText (host : ResolvedHost) (text : Text) (s : Scan) : Scan :=
  (lines text).foldl (scanLine sha256 host) s

inductive PresentedFingerprint where
  | none
  | unique (fingerprint : Text)
  | ambiguous
  | revoked

/-- What the files of a computer are when a command runs. -/
inductive FileState where
  | missing
  | unreadable
  | text (t : Text)

structure Env where
  ssh : SshOutput
  /-- One file to use in place of all others. -/
  knownHostsOverride : Option Text
  /-- The file under the home directory, where there is one. -/
  homeKnownHosts : Option Text
  file : Text → FileState

def knownHostsFiles (env : Env) (host : ResolvedHost) : List Text :=
  match env.knownHostsOverride with
  | some path => [path]
  | none =>
    let files :=
      match host.userKnownHosts with
      | .disabled => []
      | .files paths => paths
      | .unspecified => env.homeKnownHosts.toList
    host.globalKnownHosts.foldl (fun files path => if path ∈ files then files else files ++ [path]) files

/-- The scan of one file; the flag says whether any file was seen. -/
def scanFile (env : Env) (host : ResolvedHost) (s : Scan × Bool) (path : Text) :
    Except HostProfileError (Scan × Bool) :=
  match env.file path with
  | .missing => .ok s
  | .unreadable => .error .knownHosts
  | .text t => .ok (scanKnownHostsText sha256 host t s.1, true)

def Scan.presented (s : Scan) (confirmed : Option Text) : PresentedFingerprint :=
  if confirmed.any (· ∈ s.revoked) then .revoked
  else if s.ambiguous then .ambiguous
  else
    match s.found with
    | some fingerprint => if fingerprint ∈ s.revoked then .revoked else .unique fingerprint
    | none => .none

/-- What the host presents, from all its files. -/
def knownHostsFingerprint (env : Env) (host : ResolvedHost) (confirmed : Option Text) :
    Except HostProfileError PresentedFingerprint := do
  let (s, sawFile) ← (knownHostsFiles env host).foldlM (scanFile sha256 env host) (.empty, false)
  if sawFile then .ok (s.presented confirmed) else .ok .none

end Digest

inductive Glob : Text → Text → Prop where
  | nil : Glob [] []
  | star {pattern name rest : Text} (h : rest <:+ name) : Glob pattern rest → Glob (0x2a :: pattern) name
  | one {pattern name : Text} (c : UInt8) : Glob pattern name → Glob (0x3f :: pattern) (c :: name)
  | byte {pattern name : Text} {c : UInt8} (h : c ≠ 0x2a ∧ c ≠ 0x3f) :
      Glob pattern name → Glob (c :: pattern) (c :: name)

/-- A pattern selects the name and no negated one does; case does not matter. -/
def Selects (list host : Text) : Prop :=
  (∃ p ∈ patterns list, negated p = none ∧ Glob (toAsciiLowercase p) (toAsciiLowercase host)) ∧
    ¬ ∃ p ∈ patterns list, ∃ rest, negated p = some rest ∧ Glob (toAsciiLowercase rest) (toAsciiLowercase host)

/-- The name a key is looked up under: the alias for keys as it is, or the host, in brackets
and with its port where that is not the standard one. -/
def SshConfig.keyName (config : SshConfig) (hostname : Text) : Text :=
  match config.hostkeyalias.filter (· ≠ []) with
  | some name => name
  | none => if config.port = 22 then hostname else bracketed hostname config.port

theorem glob_iff {pattern name : Text} : Glob pattern name ↔ sshGlobMatch pattern name = true := by
  induction pattern generalizing name with
  | nil =>
    rw [sshGlobMatch, decide_eq_true_eq]
    constructor
    · intro h
      cases h
      rfl
    · rintro rfl
      exact .nil
  | cons c pattern ih =>
    by_cases hstar : c = 0x2a
    · subst hstar
      have hany : sshGlobMatch (0x2a :: pattern) name =
          (decide (pattern = []) || name.tails.any (sshGlobMatch pattern ·)) := by rw [sshGlobMatch]
      rw [hany, Bool.or_eq_true, decide_eq_true_eq, List.any_eq_true]
      constructor
      · intro h
        cases h with
        | star hrest h => exact .inr ⟨_, (List.mem_tails _ _).2 hrest, ih.1 h⟩
        | byte hne => exact absurd rfl hne.1
      · rintro (rfl | ⟨rest, hrest, h⟩)
        · exact .star List.nil_suffix .nil
        · exact .star ((List.mem_tails _ _).1 hrest) (ih.2 h)
    · by_cases hone : c = 0x3f
      · subst hone
        cases name with
        | nil =>
          constructor
          · intro h
            cases h
          · intro h
            simp [sshGlobMatch] at h
        | cons d name =>
          rw [show sshGlobMatch (0x3f :: pattern) (d :: name) = sshGlobMatch pattern name by
            simp [sshGlobMatch], ← ih]
          constructor
          · intro h
            cases h with
            | one _ h => exact h
            | byte hne => exact absurd rfl hne.2
          · exact .one d
      · cases name with
        | nil =>
          constructor
          · intro h
            cases h with
            | star => exact absurd rfl hstar
          · intro h
            simp [sshGlobMatch] at h
        | cons d name =>
          have hbyte : sshGlobMatch (c :: pattern) (d :: name) = (decide (d = c) && sshGlobMatch pattern name) := by
            simp [sshGlobMatch]
          rw [hbyte, Bool.and_eq_true, decide_eq_true_eq, ← ih]
          constructor
          · intro h
            cases h with
            | star => exact absurd rfl hstar
            | one => exact absurd rfl hone
            | byte _ h => exact ⟨rfl, h⟩
          · rintro ⟨rfl, h⟩
            exact .byte ⟨hstar, hone⟩ h

theorem selects_iff {list host : Text} : Selects list host ↔ patternListMatches list host = true := by
  simp [Selects, patternListMatches, glob_iff, Option.any_eq_true]

end Winsmux.HostProfile
