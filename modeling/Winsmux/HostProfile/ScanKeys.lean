import Winsmux.HostProfile.KnownHosts

/-!
# What a scan finds

The keys that count for a host and those that are revoked, as the lines of all files say, and
where the rule of the scan, which tries two names for a host, agrees with OpenSSH's.
-/
namespace Winsmux.HostProfile
open Json

/-- On the names of a line, both names of the host give what the one that OpenSSH uses gives. -/
def LineFits (config : SshConfig) (host : ResolvedHost) (names : Text) : Prop :=
  if host.port = 22 then
    patternListMatches names (bracketed host.lookupName host.port) → patternListMatches names host.lookupName
  else
    (config.hostkeyalias.filter (· ≠ [])).isSome →
      patternListMatches names (bracketed host.lookupName host.port) = patternListMatches names host.lookupName

theorem hostNamesMatch_iff_selects {config : SshConfig} {host : ResolvedHost} (hresolve : config.resolve = .ok host)
    (names : Text) :
    (hostNamesMatch names host ↔ Selects names (config.keyName host.hostname)) ↔ LineFits config host names := by
  obtain ⟨hname, hport, hlookup⟩ : config.hostname = some host.hostname ∧ host.port = config.port ∧
      host.lookupName = (config.hostkeyalias.filter (· ≠ [])).getD host.hostname := by
    rw [SshConfig.resolve] at hresolve
    split at hresolve
    · contradiction
    · next hostname hhost =>
      split at hresolve
      · contradiction
      · obtain rfl := Except.ok.inj hresolve
        exact ⟨hhost, rfl, rfl⟩
  have hsome (h : (config.hostkeyalias.filter (· ≠ [])).isSome) : config.keyName host.hostname = host.lookupName := by
    obtain ⟨name, hn⟩ := Option.isSome_iff_exists.1 h
    rw [SshConfig.keyName, hlookup, hn]
    rfl
  have hnone (h : config.hostkeyalias.filter (· ≠ []) = none) : host.lookupName = host.hostname ∧
      config.keyName host.hostname = if host.port = 22 then host.hostname else bracketed host.hostname host.port := by
    rw [SshConfig.keyName, hlookup, h, hport]
    exact ⟨rfl, rfl⟩
  rw [selects_iff, LineFits, hostNamesMatch, hostLookupCandidates]
  by_cases hstandard : host.port = 22
  · -- both names are tried, the second is the one of the rule
    have hkey : config.keyName host.hostname = host.lookupName := by
      cases halias : config.hostkeyalias.filter (· ≠ []) with
      | none => rw [(hnone halias).2, (hnone halias).1, if_pos hstandard]
      | some name => exact hsome (by rw [halias]; rfl)
    rw [hkey, if_pos hstandard, if_pos hstandard]
    simp only [List.any_cons, List.any_nil, Bool.or_false, Bool.or_eq_true]
    constructor
    · exact fun h hb => h.1 (.inl hb)
    · exact fun h => ⟨fun hor => hor.elim h id, .inr⟩
  · rw [if_neg hstandard, if_neg hstandard]
    simp only [List.any_cons, List.any_nil, Bool.or_false]
    cases halias : config.hostkeyalias.filter (· ≠ []) with
    | none => simp [(hnone halias).2, (hnone halias).1, hstandard]
    | some name =>
      rw [hsome (by rw [halias]; rfl), Bool.eq_iff_iff, Option.isSome_some]
      simp

/-- The lines of the files that are there; none where one cannot be read. -/
def linesOf (env : Env) : List Text → Option (List Text)
  | [] => some []
  | path :: paths =>
    match env.file path with
    | .missing => linesOf env paths
    | .unreadable => none
    | .text t => (linesOf env paths).map (lines t ++ ·)

def knownHostsLines (env : Env) (host : ResolvedHost) : Option (List Text) := linesOf env (knownHostsFiles env host)

section Seen
variable (select : Text → Prop)

/-- A key that counts. -/
def Counts (ls : List Text) (blob : Text) : Prop :=
  ∃ raw ∈ ls, ∃ names, readEntry raw = some (.key names blob) ∧ select names

/-- A key that is revoked; hashed names may be those of the host. -/
def Revokes (ls : List Text) (blob : Text) : Prop :=
  ∃ raw ∈ ls, ∃ names, readEntry raw = some (.revoked names blob) ∧ (hashed.isPrefixOf names ∨ select names)

/-- One key, and it is not revoked. -/
def OneKey (ls : List Text) (blob : Text) : Prop :=
  Counts select ls blob ∧ (∀ b, Counts select ls b → b = blob) ∧ ¬ Revokes select ls blob

end Seen

section Scans
variable {sha256 : Text → Text} {host : ResolvedHost} {ls : List Text} {s : Scan}

/-- What a scan holds after some lines. -/
structure Scanned (sha256 : Text → Text) (host : ResolvedHost) (ls : List Text) (s : Scan) : Prop where
  revoked : ∀ f, f ∈ s.revoked ↔ ∃ blob, Revokes (hostNamesMatch · host) ls blob ∧ f = fingerprintBlob sha256 blob
  missing : s.found = none → ∀ blob, ¬ Counts (hostNamesMatch · host) ls blob
  found : ∀ f, s.found = some f → ∃ blob, Counts (hostNamesMatch · host) ls blob ∧ f = fingerprintBlob sha256 blob
  same : s.ambiguous = false → ∀ f blob, s.found = some f → Counts (hostNamesMatch · host) ls blob →
    f = fingerprintBlob sha256 blob
  differ : s.ambiguous = true → ∃ b b', Counts (hostNamesMatch · host) ls b ∧
    Counts (hostNamesMatch · host) ls b' ∧ fingerprintBlob sha256 b ≠ fingerprintBlob sha256 b'

theorem scanned_nil : Scanned sha256 host [] .empty where
  revoked f := by simp [Scan.empty, Revokes]
  missing _ blob := by simp [Counts]
  found f h := by contradiction
  same _ f blob h := by contradiction
  differ h := by contradiction

theorem counts_append_singleton {select : Text → Prop} {raw blob : Text} :
    Counts select (ls ++ [raw]) blob ↔ Counts select ls blob ∨ Counts select [raw] blob := by
  simp [Counts, or_and_right, exists_or]

theorem revokes_append_singleton {select : Text → Prop} {raw blob : Text} :
    Revokes select (ls ++ [raw]) blob ↔ Revokes select ls blob ∨ Revokes select [raw] blob := by
  simp [Revokes, or_and_right, exists_or]

/-- A line that adds neither a key nor a revoked key. -/
theorem Scanned.pass (h : Scanned sha256 host ls s) {raw : Text}
    (hkey : ∀ blob, ¬ Counts (hostNamesMatch · host) [raw] blob)
    (hrevoked : ∀ blob, ¬ Revokes (hostNamesMatch · host) [raw] blob) : Scanned sha256 host (ls ++ [raw]) s := by
  have hcounts (blob : Text) : Counts (hostNamesMatch · host) (ls ++ [raw]) blob ↔
      Counts (hostNamesMatch · host) ls blob := by
    rw [counts_append_singleton, or_iff_left (hkey blob)]
  have hrevokes (blob : Text) : Revokes (hostNamesMatch · host) (ls ++ [raw]) blob ↔
      Revokes (hostNamesMatch · host) ls blob := by
    rw [revokes_append_singleton, or_iff_left (hrevoked blob)]
  constructor
  · simpa only [hrevokes] using h.revoked
  · simpa only [hcounts] using h.missing
  · simpa only [hcounts] using h.found
  · simpa only [hcounts] using h.same
  · simpa only [hcounts] using h.differ

section Line
variable {raw names blob : Text} {select : Text → Prop}

theorem counts_singleton (hentry : readEntry raw = some (.key names blob)) (b : Text) :
    Counts select [raw] b ↔ b = blob ∧ select names := by
  constructor
  · rintro ⟨r, hr, names', he, hn⟩
    obtain rfl := List.mem_singleton.1 hr
    rw [hentry] at he
    cases he
    exact ⟨rfl, hn⟩
  · rintro ⟨rfl, hn⟩
    exact ⟨raw, List.mem_singleton_self _, names, hentry, hn⟩

theorem revokes_singleton (hentry : readEntry raw = some (.revoked names blob)) (b : Text) :
    Revokes select [raw] b ↔ b = blob ∧ (hashed.isPrefixOf names ∨ select names) := by
  constructor
  · rintro ⟨r, hr, names', he, hn⟩
    obtain rfl := List.mem_singleton.1 hr
    rw [hentry] at he
    cases he
    exact ⟨rfl, hn⟩
  · rintro ⟨rfl, hn⟩
    exact ⟨raw, List.mem_singleton_self _, names, hentry, hn⟩

theorem Scanned.revoked_line (h : Scanned sha256 host ls s) (hentry : readEntry raw = some (.revoked names blob))
    (hmatch : hashed.isPrefixOf names ∨ hostNamesMatch names host) :
    Scanned sha256 host (ls ++ [raw]) { s with revoked := s.revoked ++ [fingerprintBlob sha256 blob] } := by
  have hcounts (b : Text) : Counts (hostNamesMatch · host) (ls ++ [raw]) b ↔
      Counts (hostNamesMatch · host) ls b := by
    rw [counts_append_singleton, or_iff_left]
    simp [Counts, hentry]
  have hone (b : Text) : Revokes (hostNamesMatch · host) [raw] b ↔ b = blob := by
    rw [revokes_singleton hentry, and_iff_left hmatch]
  refine ⟨fun f => ?_, ?_, ?_, ?_, ?_⟩
  · simp only [List.mem_append, List.mem_singleton, h.revoked, revokes_append_singleton, hone, or_and_right,
      exists_or, exists_eq_left]
  · simpa only [hcounts] using h.missing
  · simpa only [hcounts] using h.found
  · simpa only [hcounts] using h.same
  · simpa only [hcounts] using h.differ

theorem counts_key_line (hentry : readEntry raw = some (.key names blob)) (hmatch : select names) (b : Text) :
    Counts select (ls ++ [raw]) b ↔ Counts select ls b ∨ b = blob := by
  rw [counts_append_singleton, counts_singleton hentry, and_iff_left hmatch]

theorem not_revokes_key (hentry : readEntry raw = some (.key names blob)) (b : Text) :
    ¬ Revokes select [raw] b := by simp [Revokes, hentry]

theorem Scanned.revoked_key_line (h : Scanned sha256 host ls s) (hentry : readEntry raw = some (.key names blob))
    (f : Text) : f ∈ s.revoked ↔
      ∃ b, Revokes (hostNamesMatch · host) (ls ++ [raw]) b ∧ f = fingerprintBlob sha256 b := by
  have hrevokes (b : Text) : Revokes (hostNamesMatch · host) (ls ++ [raw]) b ↔
      Revokes (hostNamesMatch · host) ls b := by
    rw [revokes_append_singleton, or_iff_left (not_revokes_key hentry b)]
  simpa only [hrevokes] using h.revoked f

theorem Scanned.first_key (h : Scanned sha256 host ls s) (hentry : readEntry raw = some (.key names blob))
    (hmatch : hostNamesMatch names host) (hfound : s.found = none) :
    Scanned sha256 host (ls ++ [raw]) { s with found := some (fingerprintBlob sha256 blob) } := by
  have hno := h.missing hfound
  refine ⟨h.revoked_key_line hentry, fun hn => by contradiction, fun f hf => ?_, fun _ f b hf hb => ?_,
    fun hd => ?_⟩
  · exact ⟨blob, (counts_key_line hentry hmatch blob).2 (.inr rfl), (Option.some.inj hf).symm⟩
  · obtain hb | rfl := (counts_key_line hentry hmatch b).1 hb
    · exact absurd hb (hno b)
    · exact (Option.some.inj hf).symm
  · obtain ⟨b, -, hb, -⟩ := h.differ hd
    exact absurd hb (hno b)

theorem Scanned.other_key (h : Scanned sha256 host ls s) (hentry : readEntry raw = some (.key names blob))
    (hmatch : hostNamesMatch names host) {existing : Text} (hfound : s.found = some existing)
    (hne : existing ≠ fingerprintBlob sha256 blob) :
    Scanned sha256 host (ls ++ [raw]) { s with ambiguous := true } := by
  obtain ⟨first, hfirst, rfl⟩ := h.found existing hfound
  have hcounts := @counts_key_line ls raw names blob (hostNamesMatch · host) hentry hmatch
  refine ⟨h.revoked_key_line hentry, fun hn => ?_, fun f hf => ?_, fun hs => by contradiction, fun _ => ?_⟩
  · exact absurd (hfound.symm.trans hn) (Option.some_ne_none _)
  · obtain ⟨b, hb, rfl⟩ := h.found f hf
    exact ⟨b, (hcounts b).2 (.inl hb), rfl⟩
  · exact ⟨first, blob, (hcounts _).2 (.inl hfirst), (hcounts _).2 (.inr rfl), hne⟩

theorem Scanned.same_key (h : Scanned sha256 host ls s) (hentry : readEntry raw = some (.key names blob))
    (hmatch : hostNamesMatch names host) (hfound : s.found = some (fingerprintBlob sha256 blob)) :
    Scanned sha256 host (ls ++ [raw]) s := by
  have hcounts := @counts_key_line ls raw names blob (hostNamesMatch · host) hentry hmatch
  refine ⟨h.revoked_key_line hentry, fun hn => ?_, fun f hf => ?_, fun hs f b hf hb => ?_, fun hd => ?_⟩
  · exact absurd (hfound.symm.trans hn) (Option.some_ne_none _)
  · obtain ⟨b, hb, rfl⟩ := h.found f hf
    exact ⟨b, (hcounts b).2 (.inl hb), rfl⟩
  · obtain hb | rfl := (hcounts b).1 hb
    · exact h.same hs f b hf hb
    · exact Option.some.inj (hf.symm.trans hfound)
  · obtain ⟨b, b', hb, hb', hne⟩ := h.differ hd
    exact ⟨b, b', (hcounts b).2 (.inl hb), (hcounts b').2 (.inl hb'), hne⟩

end Line

theorem Scanned.line (h : Scanned sha256 host ls s) (raw : Text) :
    Scanned sha256 host (ls ++ [raw]) (scanLine sha256 host s raw) := by
  rw [scanLine]
  cases hentry : readEntry raw with
  | none => exact h.pass (by simp [Counts, hentry]) (by simp [Revokes, hentry])
  | some entry =>
    cases entry with
    | revoked names blob =>
      dsimp only
      split
      · next hmatch => exact h.revoked_line hentry (Bool.or_eq_true _ _ ▸ hmatch)
      · next hmatch =>
        rw [Bool.or_eq_true] at hmatch
        exact h.pass (by simp [Counts, hentry]) fun b hb => hmatch ((revokes_singleton hentry b).1 hb).2
    | key names blob =>
      dsimp only
      split
      · next hmatch =>
        rw [Bool.not_eq_true', Bool.eq_false_iff] at hmatch
        exact h.pass (fun b hb => hmatch ((counts_singleton hentry b).1 hb).2) (not_revokes_key hentry)
      · next hmatch =>
        rw [Bool.not_eq_true', Bool.not_eq_false] at hmatch
        cases hfound : s.found with
        | none => exact h.first_key hentry hmatch hfound
        | some existing =>
          dsimp only
          split
          · next hne =>
            rw [← hfound]
            exact h.other_key hentry hmatch hfound hne
          · next heq => exact h.same_key hentry hmatch (hfound.trans (congrArg some (not_not.1 heq)))

theorem Scanned.lines (h : Scanned sha256 host ls s) (more : List Text) :
    Scanned sha256 host (ls ++ more) (more.foldl (scanLine sha256 host) s) := by
  induction more generalizing ls s with
  | nil => simpa using h
  | cons raw more ih => simpa using ih (h.line raw)

/-- The scan of all files is the scan of all their lines. -/
theorem foldlM_scanFile {env : Env} (paths : List Text) (saw : Bool) :
    match linesOf env paths with
    | none => paths.foldlM (scanFile sha256 env host) (s, saw) = .error .knownHosts
    | some ls => ∃ saw', paths.foldlM (scanFile sha256 env host) (s, saw) =
        .ok (ls.foldl (scanLine sha256 host) s, saw') ∧ (saw' = false → saw = false ∧ ls = []) := by
  induction paths generalizing s saw with
  | nil => exact ⟨saw, rfl, fun h => ⟨h, rfl⟩⟩
  | cons path paths ih =>
    rw [linesOf, List.foldlM_cons, scanFile]
    cases hfile : env.file path with
    | missing => exact ih saw
    | unreadable => rfl
    | text t =>
      have ih := ih (s := scanKnownHostsText sha256 host t s) true
      dsimp only
      cases hrest : linesOf env paths with
      | none =>
        rw [hrest] at ih
        exact ih
      | some more =>
        rw [hrest] at ih
        obtain ⟨saw', hfold, hsaw⟩ := ih
        refine ⟨saw', ?_, fun h => absurd (hsaw h).1 (by decide)⟩
        rw [List.foldl_append]
        exact hfold

theorem knownHostsFingerprint_eq (env : Env) (confirmed : Option Text) :
    knownHostsFingerprint sha256 env host confirmed =
      match knownHostsLines env host with
      | none => .error .knownHosts
      | some ls => .ok ((ls.foldl (scanLine sha256 host) .empty).presented confirmed) := by
  have hfold := @foldlM_scanFile sha256 host .empty env
    (knownHostsFiles env host) false
  rw [knownHostsFingerprint, knownHostsLines]
  cases hlines : linesOf env (knownHostsFiles env host) with
  | none =>
    rw [hlines] at hfold
    dsimp only at hfold
    rw [hfold]
    rfl
  | some ls =>
    rw [hlines] at hfold
    obtain ⟨saw, hfold, hsaw⟩ := hfold
    rw [hfold]
    cases saw with
    | true => rfl
    | false =>
      -- no file was seen: the scan is empty
      obtain rfl := (hsaw rfl).2
      have hempty : Scan.empty.presented confirmed = .none := by cases confirmed <;> rfl
      exact congrArg Except.ok hempty.symm

/-- A scan presents one key that is not revoked, or none. -/
theorem Scanned.oneKey (h : Scanned sha256 host ls s) (hsha : Function.Injective sha256) {confirmed : Option Text}
    {f : Text} (hf : s.presented confirmed = .unique f) :
    ∃ blob, f = fingerprintBlob sha256 blob ∧ OneKey (hostNamesMatch · host) ls blob := by
  have hinj {b b' : Text} (he : fingerprintBlob sha256 b = fingerprintBlob sha256 b') : b = b' :=
    hsha (List.append_cancel_left he)
  rw [Scan.presented] at hf
  split_ifs at hf with hrevoked hambiguous
  split at hf
  · next g hg =>
    split_ifs at hf with hmem
    obtain rfl : g = f := by injection hf
    obtain ⟨blob, hblob, rfl⟩ := h.found g hg
    refine ⟨blob, rfl, hblob, fun b hb => ?_, fun hr => hmem ((h.revoked _).2 ⟨blob, hr, rfl⟩)⟩
    exact (hinj (h.same (Bool.eq_false_iff.2 hambiguous) _ b hg hb)).symm
  · contradiction

/-- A command that sees another key than the confirmed one, or that it is revoked. -/
theorem Scanned.presented_other (h : Scanned sha256 host ls s) {f : Text}
    (hother : (∃ blob, Counts (hostNamesMatch · host) ls blob ∧ fingerprintBlob sha256 blob ≠ f) ∨
      ∃ blob, Revokes (hostNamesMatch · host) ls blob ∧ fingerprintBlob sha256 blob = f) :
    s.presented (some f) = .revoked ∨ s.presented (some f) = .ambiguous ∨
      ∃ g, s.presented (some f) = .unique g ∧ g ≠ f := by
  by_cases hrevoked : f ∈ s.revoked
  · refine .inl ?_
    rw [Scan.presented, if_pos (by simpa using hrevoked)]
  · obtain ⟨blob, hcounts, hne⟩ | ⟨blob, hr, rfl⟩ := hother
    · rw [Scan.presented, if_neg (by simpa using hrevoked)]
      cases hambiguous : s.ambiguous with
      | true => exact .inr (.inl rfl)
      | false =>
        cases hfound : s.found with
        | none => exact absurd hcounts (h.missing hfound blob)
        | some g =>
          have hg := h.same hambiguous g blob hfound hcounts
          dsimp only
          rw [if_neg (by decide)]
          split
          · exact .inl rfl
          · exact .inr (.inr ⟨g, rfl, hg ▸ hne⟩)
    · exact absurd ((h.revoked _).2 ⟨blob, hr, rfl⟩) hrevoked

end Scans
end Winsmux.HostProfile
