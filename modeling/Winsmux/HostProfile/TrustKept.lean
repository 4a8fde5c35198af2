import Winsmux.HostProfile.ScanKeys
import Winsmux.HostProfile.Trust

/-!
# Trust is kept

A record is registered by a `register` that saw one key, what is confirmed stays, and a
blocked record stays blocked. The keys a command sees are those of the lines that OpenSSH's
rule selects, in runs where the rule of the scan agrees with it on these lines.
-/
namespace Winsmux.HostProfile
open Json Transition

section Kept
variable {sha256 : Text → Text} {windows : Bool}

/-- What a command does to the record of its alias. -/
inductive Effect (sha256 : Text → Text) (cmd : HostCommand) (stored : Option HostProfileRecord) : Answer → Prop where
  | failed (e : HostProfileError) : Effect sha256 cmd stored (.error e, none)
  | refused (e : HostProfileError) (record : HostProfileRecord) (h : stored = some record) :
    Effect sha256 cmd stored (.error e, some record.block)
  | retargeted (report : Report) (record : HostProfileRecord) (haction : cmd.action = .check)
    (h : stored = some record) : Effect sha256 cmd stored (.ok report, some record.block)
  | checked (report : Report) (resolved : ResolvedHost) (record : HostProfileRecord)
    (presented : PresentedFingerprint) (haction : cmd.action = .check)
    (h : stored = some record ∨ stored = none ∧ record = .fresh cmd.aliasName resolved)
    (hhere : record.retargeted resolved = false) :
    Effect sha256 cmd stored
      (.ok report, some { record.withEndpoint resolved with
        state := nextState (record.withEndpoint resolved) presented })
  | again (report : Report) (record : HostProfileRecord) (haction : cmd.action = .register) (h : stored = some record)
    (hstate : record.state = .registered) : Effect sha256 cmd stored (.ok report, none)
  | confirmed (report : Report) (config : SshConfig) (resolved : ResolvedHost) (record : HostProfileRecord)
    (fingerprint : Text) (haction : cmd.action = .register) (h : stored = some record)
    (hresolve : resolveSshG cmd.aliasName cmd.env.ssh = .ok (config, resolved))
    (hhere : record.retargeted resolved = false) (hopen : record.state ≠ .blocked)
    (hsame : ∀ f, record.confirmedFingerprint = some f → f = fingerprint)
    (hkey : knownHostsFingerprint sha256 cmd.env resolved record.confirmedFingerprint = .ok (.unique fingerprint)) :
    Effect sha256 cmd stored
      (.ok report, some { record.withEndpoint resolved with
        confirmedFingerprint := some fingerprint
        state := .registered })

theorem nextState_blocked {record : HostProfileRecord} (h : record.state = .blocked)
    (presented : PresentedFingerprint) :
    nextState record presented = .blocked := by
  obtain ⟨_, _, _, _, _, confirmed, state⟩ := record
  obtain rfl : state = .blocked := h
  cases confirmed <;> cases presented <;> simp [nextState]

theorem nextState_registered {record : HostProfileRecord} {presented : PresentedFingerprint}
    (h : nextState record presented = .registered) :
    record.state = .registered ∧ record.confirmedFingerprint.isSome := by
  obtain ⟨_, _, _, _, _, confirmed, state⟩ := record
  cases state <;> cases confirmed <;> cases presented <;> simp_all [nextState]
  split at h <;> contradiction

section Effects
variable {cmd : HostCommand} {stored : Option HostProfileRecord}

theorem checkAlias_effect (haction : cmd.action = .check) :
    Effect sha256 cmd stored (checkAlias sha256 cmd.aliasName cmd.env stored) := by
  rw [checkAlias]
  cases hresolve : resolveSshG cmd.aliasName cmd.env.ssh with
  | error e => exact .failed e
  | ok found =>
    obtain ⟨config, resolved⟩ := found
    dsimp only
    cases hkey : knownHostsFingerprint sha256 cmd.env resolved
        (stored.getD (.fresh cmd.aliasName resolved)).confirmedFingerprint with
    | error e => exact .failed e
    | ok presented =>
      dsimp only
      split
      · next hretargeted =>
        cases stored with
        | none => simp [HostProfileRecord.retargeted, HostProfileRecord.fresh] at hretargeted
        | some record => exact .retargeted _ record haction rfl
      · next hhere =>
        rw [Bool.not_eq_true] at hhere
        refine .checked _ resolved _ presented haction ?_ hhere
        cases stored with
        | none => exact .inr ⟨rfl, rfl⟩
        | some record => exact .inl rfl

theorem registerKey_effect (haction : cmd.action = .register) {config : SshConfig} {resolved : ResolvedHost}
    {record : HostProfileRecord} {fingerprint : Text} (hstored : stored = some record)
    (hresolve : resolveSshG cmd.aliasName cmd.env.ssh = .ok (config, resolved))
    (hhere : record.retargeted resolved = false)
    (hkey : knownHostsFingerprint sha256 cmd.env resolved record.confirmedFingerprint = .ok (.unique fingerprint)) :
    Effect sha256 cmd stored (registerKey resolved fingerprint record) := by
  rw [registerKey]
  split
  · exact .refused _ record hstored
  · next hchanged =>
    rw [not_or] at hchanged
    split
    · next hagain => exact .again _ record haction hstored hagain.1
    · refine .confirmed _ config resolved record fingerprint haction hstored hresolve hhere
        (fun hb => hchanged.1 (nextState_blocked hb _)) (fun f hf => ?_) hkey
      by_contra hne
      refine hchanged.2 ⟨by rw [hf]; rfl, ?_⟩
      rw [hf]
      exact fun he => hne (Option.some.inj he)

theorem registerAlias_effect (haction : cmd.action = .register) :
    Effect sha256 cmd stored (registerAlias sha256 cmd.aliasName cmd.env stored) := by
  rw [registerAlias]
  cases hresolve : resolveSshG cmd.aliasName cmd.env.ssh with
  | error e => exact .failed e
  | ok found =>
    obtain ⟨config, resolved⟩ := found
    dsimp only
    cases stored with
    | none => exact .failed _
    | some record =>
      dsimp only
      split
      · exact .refused _ record rfl
      · next hhere =>
        rw [Bool.not_eq_true] at hhere
        cases hkey : knownHostsFingerprint sha256 cmd.env resolved record.confirmedFingerprint with
        | error e => exact .failed e
        | ok presented =>
          cases presented with
          | none => exact .failed _
          | ambiguous | revoked =>
            dsimp only
            split
            · exact .refused _ record rfl
            · exact .failed _
          | unique fingerprint => exact registerKey_effect haction rfl hresolve hhere hkey

theorem answer_effect : Effect sha256 cmd stored (cmd.answer sha256 stored) := by
  rw [HostCommand.answer]
  split
  · cases haction : cmd.action with
    | check => exact checkAlias_effect haction
    | register => exact registerAlias_effect haction
  · exact .failed _

end Effects

/-- Two aliases of one file. -/
abbrev SameFile (windows : Bool) (aliasName other : Text) : Prop := fileName windows aliasName = fileName windows other

/-- The lines a command reads about its host, and the rule that selects among them. -/
structure Reads (cmd : HostCommand) (config : SshConfig) (host : ResolvedHost) (ls : List Text) : Prop where
  resolves : resolveSshG cmd.aliasName cmd.env.ssh = .ok (config, host)
  lines : knownHostsLines cmd.env host = some ls

/-- OpenSSH's rule. -/
abbrev rule (config : SshConfig) (host : ResolvedHost) (names : Text) : Prop :=
  Selects names (config.keyName host.hostname)

/-- A command sees another endpoint than the confirmed one, another key, more than one key or
a revoked key. -/
def Sees (sha256 : Text → Text) (cmd : HostCommand) (record : HostProfileRecord) (fingerprint : Text) : Prop :=
  (∃ config host, resolveSshG cmd.aliasName cmd.env.ssh = .ok (config, host) ∧
    (record.hostname ≠ host.hostname ∨ record.port ≠ host.port)) ∨
  ∃ config host ls, Reads cmd config host ls ∧
    ((∃ blob, Counts (rule config host) ls blob ∧ fingerprintBlob sha256 blob ≠ fingerprint) ∨
      (∃ blob other, Counts (rule config host) ls blob ∧ Counts (rule config host) ls other ∧ blob ≠ other) ∨
      ∃ blob, Revokes (rule config host) ls blob ∧
        (fingerprintBlob sha256 blob = fingerprint ∨ Counts (rule config host) ls blob))

structure StepKept (sha256 : Text → Text) (windows : Bool) (w : Profiles) (cmd : HostCommand) : Prop where
  /-- Only a `register` that saw one key makes a record registered. -/
  registers : ∀ name record, (w.next sha256 windows cmd).records name = some record → record.state = .registered →
    (w.records name).any (·.state = .registered) = false →
    cmd.action = .register ∧ name = fileName windows cmd.aliasName ∧
      ∃ config host ls blob, Reads cmd config host ls ∧ OneKey (rule config host) ls blob ∧
        record.hostname = host.hostname ∧ record.port = host.port ∧
        record.confirmedFingerprint = some (fingerprintBlob sha256 blob)
  /-- What is confirmed does not change. -/
  confirmed : ∀ name record f, w.records name = some record → record.confirmedFingerprint = some f →
    ∃ record', (w.next sha256 windows cmd).records name = some record' ∧ record'.confirmedFingerprint = some f ∧
      record'.hostname = record.hostname ∧ record'.port = record.port
  /-- No blocked record is left. -/
  blocked : ∀ name record, w.records name = some record → record.state = .blocked →
    ∃ record', (w.next sha256 windows cmd).records name = some record' ∧ record'.state = .blocked
  /-- What differs from what is confirmed blocks. -/
  sees : validateAlias cmd.aliasName = true → ∀ record f, w.records (fileName windows cmd.aliasName) = some record →
    record.confirmedFingerprint = some f → Sees sha256 cmd record f →
    ∃ record', (w.next sha256 windows cmd).records (fileName windows cmd.aliasName) = some record' ∧
      record'.state = .blocked
  /-- A `register` that fails leaves the record or blocks it. -/
  fails : cmd.action = .register →
    (cmd.answer sha256 (w.records (fileName windows cmd.aliasName))).1.isOk = false →
    ∀ name, (w.next sha256 windows cmd).records name = w.records name ∨
      ∃ record', (w.next sha256 windows cmd).records name = some record' ∧ record'.state = .blocked

/-- The rule of the scan agrees with OpenSSH's on the lines that are read, and a `check` whose
alias resolves to another endpoint than the confirmed one can read its files. -/
structure Fits (windows : Bool) (w : Profiles) (cmd : HostCommand) : Prop where
  lines : ∀ config host ls, Reads cmd config host ls → ∀ raw ∈ ls, ∀ names blob,
    readEntry raw = some (.key names blob) ∨ readEntry raw = some (.revoked names blob) →
    LineFits config host names
  readable : cmd.action = .check → ∀ config host record,
    resolveSshG cmd.aliasName cmd.env.ssh = .ok (config, host) →
    w.records (fileName windows cmd.aliasName) = some record → record.retargeted host = true →
    (knownHostsLines cmd.env host).isSome

theorem resolve_of_resolveSshG {aliasName : Text} {ssh : SshOutput} {config : SshConfig} {host : ResolvedHost}
    (h : resolveSshG aliasName ssh = .ok (config, host)) : config.resolve = .ok host := by
  cases ssh with
  | execFailed => cases h
  | failed => cases h
  | notUtf8 => cases h
  | text stdout =>
    rw [resolveSshG] at h
    cases hread : readConfig stdout with
    | error e =>
      rw [hread] at h
      cases h
    | ok found =>
      rw [hread] at h
      cases hresolve : found.resolve with
      | error e =>
        simp only [bind, Except.bind, hresolve] at h
        cases h
      | ok resolved =>
        simp only [bind, Except.bind, hresolve] at h
        split at h
        · cases h
        · cases h
          exact hresolve

/-- On the lines that are read, a key counts by the scan's rule as by OpenSSH's. -/
theorem Fits.counts_iff {w : Profiles} {cmd : HostCommand} (h : Fits windows w cmd) {config : SshConfig}
    {host : ResolvedHost} {ls : List Text} (hreads : Reads cmd config host ls) (blob : Text) :
    Counts (rule config host) ls blob ↔ Counts (hostNamesMatch · host) ls blob := by
  have hresolve := resolve_of_resolveSshG hreads.resolves
  refine exists_congr fun raw => and_congr_right fun hraw => exists_congr fun names => and_congr_right fun he => ?_
  exact ((hostNamesMatch_iff_selects hresolve names).2 (h.lines _ _ _ hreads raw hraw names blob (.inl he))).symm

theorem Fits.revokes_iff {w : Profiles} {cmd : HostCommand} (h : Fits windows w cmd) {config : SshConfig}
    {host : ResolvedHost} {ls : List Text} (hreads : Reads cmd config host ls) (blob : Text) :
    Revokes (rule config host) ls blob ↔ Revokes (hostNamesMatch · host) ls blob := by
  have hresolve := resolve_of_resolveSshG hreads.resolves
  refine exists_congr fun raw => and_congr_right fun hraw => exists_congr fun names => and_congr_right fun he => ?_
  exact or_congr_right
    ((hostNamesMatch_iff_selects hresolve names).2 (h.lines _ _ _ hreads raw hraw names blob (.inr he))).symm

theorem scanned_lines (host : ResolvedHost) (ls : List Text) :
    Scanned sha256 host ls (ls.foldl (scanLine sha256 host) .empty) := by
  simpa using (@scanned_nil sha256 host).lines ls

theorem knownHostsFingerprint_of_lines {env : Env} {host : ResolvedHost} {ls : List Text} (confirmed : Option Text)
    (h : knownHostsLines env host = some ls) :
    knownHostsFingerprint sha256 env host confirmed =
      .ok ((ls.foldl (scanLine sha256 host) .empty).presented confirmed) := by
  rw [knownHostsFingerprint_eq, h]

/-- A key that is presented is the one key of the lines that are read. -/
theorem Fits.oneKey {w : Profiles} {cmd : HostCommand} (h : Fits windows w cmd) (hsha : Function.Injective sha256)
    {config : SshConfig} {host : ResolvedHost} {confirmed : Option Text} {f : Text}
    (hresolve : resolveSshG cmd.aliasName cmd.env.ssh = .ok (config, host))
    (hkey : knownHostsFingerprint sha256 cmd.env host confirmed = .ok (.unique f)) :
    ∃ ls blob, Reads cmd config host ls ∧ OneKey (rule config host) ls blob ∧ f = fingerprintBlob sha256 blob := by
  cases hlines : knownHostsLines cmd.env host with
  | none =>
    rw [knownHostsFingerprint_eq, hlines] at hkey
    cases hkey
  | some ls =>
    have hreads : Reads cmd config host ls := ⟨hresolve, hlines⟩
    rw [knownHostsFingerprint_of_lines _ hlines] at hkey
    obtain ⟨blob, hf, hcounts, hone, hrevoked⟩ := (scanned_lines host ls).oneKey hsha (Except.ok.inj hkey)
    refine ⟨ls, blob, hreads, ⟨(h.counts_iff hreads _).2 hcounts, fun b hb => ?_, fun hr => ?_⟩, hf⟩
    · exact hone b ((h.counts_iff hreads b).1 hb)
    · exact hrevoked ((h.revokes_iff hreads _).1 hr)

/-- What is presented where the lines hold another key than the confirmed one. -/
theorem Fits.presented_other {w : Profiles} {cmd : HostCommand} (h : Fits windows w cmd)
    (hsha : Function.Injective sha256) {config : SshConfig} {host : ResolvedHost} {ls : List Text}
    (hreads : Reads cmd config host ls) {f : Text}
    (hother : (∃ blob, Counts (rule config host) ls blob ∧ fingerprintBlob sha256 blob ≠ f) ∨
      (∃ blob other, Counts (rule config host) ls blob ∧ Counts (rule config host) ls other ∧ blob ≠ other) ∨
      ∃ blob, Revokes (rule config host) ls blob ∧
        (fingerprintBlob sha256 blob = f ∨ Counts (rule config host) ls blob)) :
    ∃ p, knownHostsFingerprint sha256 cmd.env host (some f) = .ok p ∧
      (p = .revoked ∨ p = .ambiguous ∨ ∃ g, p = .unique g ∧ g ≠ f) := by
  refine ⟨_, knownHostsFingerprint_of_lines _ hreads.lines, (scanned_lines host ls).presented_other ?_⟩
  simp only [h.counts_iff hreads, h.revokes_iff hreads] at hother
  obtain hkey | ⟨blob, other, hb, ho, hne⟩ | ⟨blob, hr, hf | hb⟩ := hother
  · exact .inl hkey
  · -- two keys: one of them is not the confirmed one
    by_cases hf : fingerprintBlob sha256 blob = f
    · refine .inl ⟨other, ho, fun he => hne ?_⟩
      exact hsha (List.append_cancel_left (hf.trans he.symm))
    · exact .inl ⟨blob, hb, hf⟩
  · exact .inr ⟨blob, hr, hf⟩
  · by_cases hf : fingerprintBlob sha256 blob = f
    · exact .inr ⟨blob, hr, hf⟩
    · exact .inl ⟨blob, hb, hf⟩

/-- What differs from a confirmed record blocks it. -/
theorem Fits.sees {w : Profiles} {cmd : HostCommand} (h : Fits windows w cmd) (hsha : Function.Injective sha256)
    (hvalid : validateAlias cmd.aliasName = true) {record : HostProfileRecord} {f : Text}
    (hstored : w.records (fileName windows cmd.aliasName) = some record) (hf : record.confirmedFingerprint = some f)
    (hsees : Sees sha256 cmd record f) :
    ∃ record', (cmd.answer sha256 (some record)).2 = some record' ∧ record'.state = .blocked := by
  rw [HostCommand.answer, if_pos hvalid]
  obtain ⟨config, host, hresolve, hendpoint⟩ | ⟨config, host, ls, hreads, hother⟩ := hsees
  · have hretargeted : record.retargeted host = true := by
      rw [HostProfileRecord.retargeted, hf]
      simpa using hendpoint
    cases haction : cmd.action with
    | check =>
      obtain ⟨ls, hlines⟩ :=
        Option.isSome_iff_exists.1 (h.readable haction config host record hresolve hstored hretargeted)
      refine ⟨record.block, ?_, rfl⟩
      simp only [checkAlias, hresolve, Option.getD_some, knownHostsFingerprint_of_lines _ hlines, hretargeted, if_true]
    | register =>
      refine ⟨record.block, ?_, rfl⟩
      simp only [registerAlias, hresolve, hretargeted, if_true]
  · obtain ⟨p, hp, hcases⟩ := h.presented_other hsha hreads hother
    by_cases hretargeted : record.retargeted host = true
    · refine ⟨record.block, ?_, rfl⟩
      cases haction : cmd.action with
      | check => simp only [checkAlias, hreads.resolves, Option.getD_some, hf, hp, hretargeted, if_true]
      | register => simp only [registerAlias, hreads.resolves, hretargeted, if_true]
    · rw [Bool.not_eq_true] at hretargeted
      cases haction : cmd.action with
      | check =>
        refine ⟨{ record.withEndpoint host with state := nextState (record.withEndpoint host) p }, ?_, ?_⟩
        · simp [checkAlias, hreads.resolves, hf, hp, hretargeted]
        · have hconfirmed : (record.withEndpoint host).confirmedFingerprint = some f := hf
          obtain rfl | rfl | ⟨g, rfl, hne⟩ := hcases
          · simp [nextState]
          · simp [nextState, hconfirmed]
          · simp [nextState, hconfirmed, Ne.symm hne]
      | register =>
        refine ⟨record.block, ?_, rfl⟩
        obtain rfl | rfl | ⟨g, rfl, hne⟩ := hcases
        · simp [registerAlias, hreads.resolves, hf, hp, hretargeted]
        · simp [registerAlias, hreads.resolves, hf, hp, hretargeted]
        · simp [registerAlias, registerKey, hreads.resolves, hf, hp, hretargeted, Ne.symm hne]

theorem next_records (w : Profiles) (cmd : HostCommand) (name : Text) :
    (w.next sha256 windows cmd).records name =
      if name = fileName windows cmd.aliasName then
        (cmd.answer sha256 (w.records (fileName windows cmd.aliasName))).2.or (w.records name)
      else w.records name := rfl

/-- A record after a command was there before, or was saved by it. -/
theorem next_records_some {w : Profiles} {cmd : HostCommand} {name : Text} {record : HostProfileRecord}
    (h : (w.next sha256 windows cmd).records name = some record) :
    w.records name = some record ∨ name = fileName windows cmd.aliasName ∧
      (cmd.answer sha256 (w.records name)).2 = some record := by
  rw [next_records] at h
  split at h
  · next hname =>
    subst hname
    obtain h | ⟨-, h⟩ := Option.or_eq_some_iff.1 h
    · exact .inr ⟨rfl, h⟩
    · exact .inl h
  · exact .inl h

/-- A record before a command is there after it, as it was or as the command saved it. -/
theorem next_records_of_some {w : Profiles} {cmd : HostCommand} {name : Text} {record : HostProfileRecord}
    (h : w.records name = some record) :
    (w.next sha256 windows cmd).records name = some record ∨
      ∃ saved, name = fileName windows cmd.aliasName ∧ (cmd.answer sha256 (some record)).2 = some saved ∧
        (w.next sha256 windows cmd).records name = some saved := by
  rw [next_records]
  split
  · next hname =>
    subst hname
    rw [h]
    cases hsaved : (cmd.answer sha256 (some record)).2 with
    | none => exact .inl rfl
    | some saved => exact .inr ⟨saved, rfl, rfl, rfl⟩
  · exact .inl h

theorem endpoint_of_not_retargeted {record : HostProfileRecord} {host : ResolvedHost} {f : Text}
    (h : record.retargeted host = false) (hf : record.confirmedFingerprint = some f) :
    host.hostname = record.hostname ∧ host.port = record.port := by
  rw [HostProfileRecord.retargeted, hf] at h
  simp only [Option.isSome_some, Bool.true_and, Bool.or_eq_false_iff, decide_eq_false_iff_not, not_not] at h
  exact ⟨h.1.symm, h.2.symm⟩

/-- A command that saves a record as registered, where it was not, is a `register` that saw one key. -/
theorem answer_registered {w : Profiles} {cmd : HostCommand} (h : Fits windows w cmd)
    (hsha : Function.Injective sha256) {before : Option HostProfileRecord} {record : HostProfileRecord}
    (hsaved : (cmd.answer sha256 before).2 = some record) (hstate : record.state = .registered)
    (hbefore : before.any (·.state = .registered) = false) :
    cmd.action = .register ∧ ∃ config host ls blob, Reads cmd config host ls ∧ OneKey (rule config host) ls blob ∧
      record.hostname = host.hostname ∧ record.port = host.port ∧
      record.confirmedFingerprint = some (fingerprintBlob sha256 blob) := by
  have heffect := @answer_effect sha256 cmd before
  generalize cmd.answer sha256 before = answer at hsaved heffect
  cases heffect with
  | failed => cases hsaved
  | refused e record' =>
    cases hsaved
    cases hstate
  | retargeted report record' =>
    cases hsaved
    cases hstate
  | checked report host record' presented haction hstored =>
    -- a check keeps a registered record, and makes none
    cases hsaved
    have hwas : record'.state = .registered := (nextState_registered hstate).1
    obtain hstored | ⟨-, rfl⟩ := hstored
    · rw [hstored] at hbefore
      simp [hwas] at hbefore
    · cases hwas
  | again => cases hsaved
  | confirmed report config host record' fingerprint haction hstored hresolve hhere hopen hsame hkey =>
    cases hsaved
    obtain ⟨ls, blob, hreads, hone, hf⟩ := h.oneKey hsha hresolve hkey
    exact ⟨haction, config, host, ls, blob, hreads, hone, rfl, rfl, congrArg some hf⟩

section Saved
variable {cmd : HostCommand} {record saved : HostProfileRecord}

theorem answer_confirmed (hsaved : (cmd.answer sha256 (some record)).2 = some saved) {f : Text}
    (hf : record.confirmedFingerprint = some f) :
    saved.confirmedFingerprint = some f ∧ saved.hostname = record.hostname ∧ saved.port = record.port := by
  have heffect := @answer_effect sha256 cmd (some record)
  generalize cmd.answer sha256 (some record) = answer at hsaved heffect
  cases heffect with
  | failed => cases hsaved
  | refused e record' hr =>
    cases hr
    cases hsaved
    exact ⟨hf, rfl, rfl⟩
  | retargeted report record' haction hr =>
    cases hr
    cases hsaved
    exact ⟨hf, rfl, rfl⟩
  | checked report host record' presented haction hr hhere =>
    obtain hr | ⟨hr, -⟩ := hr
    · cases hr
      cases hsaved
      exact ⟨hf, endpoint_of_not_retargeted hhere hf⟩
    · contradiction
  | again => cases hsaved
  | confirmed report config host record' fingerprint haction hr hresolve hhere hopen hsame hkey =>
    cases hr
    cases hsaved
    exact ⟨congrArg some (hsame f hf).symm, endpoint_of_not_retargeted hhere hf⟩

theorem answer_blocked (hsaved : (cmd.answer sha256 (some record)).2 = some saved)
    (hstate : record.state = .blocked) : saved.state = .blocked := by
  have heffect := @answer_effect sha256 cmd (some record)
  generalize cmd.answer sha256 (some record) = answer at hsaved heffect
  cases heffect with
  | failed => cases hsaved
  | refused e record' hr =>
    cases hsaved
    rfl
  | retargeted report record' haction hr =>
    cases hsaved
    rfl
  | checked report host record' presented haction hr hhere =>
    obtain hr | ⟨hr, -⟩ := hr
    · cases hr
      cases hsaved
      exact nextState_blocked hstate presented
    · contradiction
  | again => cases hsaved
  | confirmed report config host record' fingerprint haction hr hresolve hhere hopen =>
    cases hr
    exact absurd hstate hopen

/-- A command that fails saves nothing, or a blocked record. -/
theorem answer_failed {before : Option HostProfileRecord} (herr : (cmd.answer sha256 before).1.isOk = false) :
    (cmd.answer sha256 before).2 = none ∨
      ∃ record', (cmd.answer sha256 before).2 = some record' ∧ record'.state = .blocked := by
  have heffect := @answer_effect sha256 cmd before
  generalize cmd.answer sha256 before = answer at herr heffect
  cases heffect with
  | failed => exact .inl rfl
  | refused e record => exact .inr ⟨_, rfl, rfl⟩
  | retargeted => cases herr
  | checked => cases herr
  | again => cases herr
  | confirmed => cases herr

end Saved

theorem stepKept {w : Profiles} {cmd : HostCommand} (h : Fits windows w cmd) (hsha : Function.Injective sha256) :
    StepKept sha256 windows w cmd where
  registers name record hnext hstate hbefore := by
    obtain hold | ⟨rfl, hsaved⟩ := next_records_some hnext
    · rw [hold] at hbefore
      simp [hstate] at hbefore
    · obtain ⟨haction, hkey⟩ := answer_registered h hsha hsaved hstate hbefore
      exact ⟨haction, rfl, hkey⟩
  confirmed name record f hstored hf := by
    obtain hkept | ⟨saved, -, hsaved, hnext⟩ := @next_records_of_some sha256 windows _ cmd _ _ hstored
    · exact ⟨record, hkept, hf, rfl, rfl⟩
    · exact ⟨saved, hnext, answer_confirmed hsaved hf⟩
  blocked name record hstored hstate := by
    obtain hkept | ⟨saved, -, hsaved, hnext⟩ := @next_records_of_some sha256 windows _ cmd _ _ hstored
    · exact ⟨record, hkept, hstate⟩
    · exact ⟨saved, hnext, answer_blocked hsaved hstate⟩
  sees hvalid record f hstored hf hsees := by
    obtain ⟨saved, hsaved, hblocked⟩ := h.sees hsha hvalid hstored hf hsees
    refine ⟨saved, ?_, hblocked⟩
    rw [next_records, if_pos rfl, hstored, hsaved]
    rfl
  fails _ herr name := by
    rw [next_records]
    split
    · next hname =>
      subst hname
      obtain hnone | ⟨record', hsaved, hblocked⟩ := answer_failed herr
      · rw [hnone]
        exact .inl rfl
      · rw [hsaved]
        exact .inr ⟨record', rfl, hblocked⟩
    · exact .inl rfl

/-- What holds of all records: the registered ones are confirmed, by a `register` of their file. -/
structure Trusted (windows : Bool) (w : Profiles) : Prop where
  confirmed : ∀ name record, w.records name = some record → record.state = .registered →
    record.confirmedFingerprint.isSome
  registered : ∀ name record, w.records name = some record → record.state = .registered →
    ∃ d ∈ w.done, d.action = .register ∧ d.ok = true ∧ fileName windows d.aliasName = name

theorem trusted_init : Trusted windows ⟨fun _ => none, []⟩ where
  confirmed _ _ h := by cases h
  registered _ _ h := by cases h

theorem trusted_next {w : Profiles} (hw : Trusted windows w) (cmd : HostCommand) :
    Trusted windows (w.next sha256 windows cmd) := by
  have hdone : (w.next sha256 windows cmd).done =
      ⟨cmd.action, cmd.aliasName, (cmd.answer sha256 (w.records (fileName windows cmd.aliasName))).1.isOk⟩ ::
        w.done := rfl
  have hboth (name : Text) (record : HostProfileRecord)
      (hnext : (w.next sha256 windows cmd).records name = some record) (hstate : record.state = .registered) :
      record.confirmedFingerprint.isSome ∧ ∃ d ∈ (w.next sha256 windows cmd).done,
        d.action = .register ∧ d.ok = true ∧ fileName windows d.aliasName = name := by
    have hkept (record' : HostProfileRecord) (h : w.records name = some record') (hs : record'.state = .registered) :
        ∃ d ∈ (w.next sha256 windows cmd).done,
          d.action = .register ∧ d.ok = true ∧ fileName windows d.aliasName = name := by
      obtain ⟨d, hd, hrest⟩ := hw.registered name record' h hs
      exact ⟨d, by rw [hdone]; exact List.mem_cons_of_mem _ hd, hrest⟩
    obtain hold | ⟨rfl, hsaved⟩ := next_records_some hnext
    · exact ⟨hw.confirmed name record hold hstate, hkept record hold hstate⟩
    · have heffect := @answer_effect sha256 cmd (w.records (fileName windows cmd.aliasName))
      generalize hanswer : cmd.answer sha256 (w.records (fileName windows cmd.aliasName)) = answer
        at hsaved heffect hdone
      cases heffect with
      | failed => cases hsaved
      | refused e record' =>
        cases hsaved
        cases hstate
      | retargeted report record' =>
        cases hsaved
        cases hstate
      | checked report host record' presented haction hstored =>
        cases hsaved
        obtain ⟨hwas, hsome⟩ := nextState_registered hstate
        have hwas : record'.state = .registered := hwas
        obtain hstored | ⟨-, rfl⟩ := hstored
        · exact ⟨hsome, hkept record' hstored hwas⟩
        · cases hwas
      | again => cases hsaved
      | confirmed report config host record' fingerprint haction =>
        cases hsaved
        exact ⟨rfl, _, by rw [hdone]; exact List.mem_cons_self, haction, rfl, rfl⟩
  exact ⟨fun name record h hs => (hboth name record h hs).1, fun name record h hs => (hboth name record h hs).2⟩

/-- In every run whose commands read lines on which the rule of the scan agrees with OpenSSH's,
records are registered and blocked as they should be; an alias whose file is that of no other
one is registered only by itself; and the rules agree on a line exactly where both names of
the host do. -/
theorem host_trust_kept (hsha : Function.Injective sha256) :
    (∀ w, ((machine sha256 windows).restrict (Fits windows)).Reachable w →
      (∀ name record, w.records name = some record → record.state = .registered →
        record.confirmedFingerprint.isSome) ∧
      (∀ aliasName, isRegisteredAlias windows aliasName w = .ok true →
        (∀ d ∈ w.done, SameFile windows d.aliasName aliasName → d.aliasName = aliasName) →
        ∃ d ∈ w.done, d.action = .register ∧ d.ok = true ∧ d.aliasName = aliasName) ∧
      ∀ cmd, Fits windows w cmd → StepKept sha256 windows w cmd) ∧
    ∀ (config : SshConfig) (host : ResolvedHost), config.resolve = .ok host → ∀ names,
      ((hostNamesMatch names host ↔ Selects names (config.keyName host.hostname)) ↔ LineFits config host names) := by
  refine ⟨fun w hw => ?_, fun config host hresolve names => hostNamesMatch_iff_selects hresolve names⟩
  have htrusted : Trusted windows w :=
    hw.invariant (P := Trusted windows) trusted_init fun w cmd _ h _ => trusted_next h cmd
  refine ⟨htrusted.confirmed, fun aliasName hreg hown => ?_, fun cmd hcmd => stepKept hcmd hsha⟩
  rw [isRegisteredAlias] at hreg
  split at hreg
  · have hany := Except.ok.inj hreg
    obtain ⟨record, hrecord, hstate⟩ := (Option.any_eq_true _ _).1 hany
    rw [decide_eq_true_eq] at hstate
    obtain ⟨d, hd, haction, hok, hname⟩ := htrusted.registered _ record hrecord hstate
    exact ⟨d, hd, haction, hok, hown d hd hname⟩
  · cases hreg

end Kept
/-- `ssh -G` reports one host for every alias, and one file holds one line. -/
def computer (line : String) : Env where
  ssh := .text (utf8 "hostname h.example\n")
  knownHostsOverride := some (utf8 "known_hosts")
  homeKnownHosts := none
  file _ := .text (utf8 line)

def oneHost : ResolvedHost := ⟨utf8 "h.example", utf8 "h.example", 22, [], none, .unspecified, []⟩

def oneConfig : SshConfig := { SshConfig.empty with hostname := some (utf8 "h.example") }

def registerRun (aliasName : String) : List HostCommand :=
  [⟨.check, utf8 aliasName, computer "h.example ssh-ed25519 KEY\n"⟩,
    ⟨.register, utf8 aliasName, computer "h.example ssh-ed25519 KEY\n"⟩]

theorem fits_registerRun (w : Profiles) {cmd : HostCommand} (h : cmd ∈ registerRun "lab") : Fits true w cmd := by
  have henv : cmd.aliasName = utf8 "lab" ∧ cmd.env = computer "h.example ssh-ed25519 KEY\n" := by
    simp only [registerRun, List.mem_cons, List.not_mem_nil, or_false] at h
    obtain rfl | rfl := h <;> exact ⟨rfl, rfl⟩
  have hresolve : resolveSshG (utf8 "lab") (computer "h.example ssh-ed25519 KEY\n").ssh = .ok (oneConfig, oneHost) := by
    rfl
  have hlines : knownHostsLines (computer "h.example ssh-ed25519 KEY\n") oneHost =
      some [utf8 "h.example ssh-ed25519 KEY"] := by rfl
  have hentry : readEntry (utf8 "h.example ssh-ed25519 KEY") = some (.key (utf8 "h.example") (utf8 "KEY")) := by rfl
  constructor
  · intro config host ls hreads raw hraw names blob he
    have hfound := hreads.resolves
    rw [henv.1, henv.2, hresolve] at hfound
    cases hfound
    have hread := hreads.lines
    rw [henv.2, hlines] at hread
    cases hread
    obtain rfl := List.mem_singleton.1 hraw
    rw [hentry] at he
    obtain he | he := he
    · cases he
      rw [LineFits, if_pos (show oneHost.port = 22 from rfl)]
      exact fun _ => by decide
    · cases he
  · intro _ config host record hfound _ _
    rw [henv.1, henv.2, hresolve] at hfound
    cases hfound
    rw [henv.2, hlines]
    rfl

theorem host_trust_kept_lab :
    ∃ d ∈ ((machine id true).run ⟨fun _ => none, []⟩ (registerRun "lab")).done,
      d.action = .register ∧ d.ok = true ∧ d.aliasName = utf8 "lab" := by
  refine ((host_trust_kept Function.injective_id).1 _ (System.Reachable.run
    (S := (machine id true).restrict (Fits true)) .init (registerRun "lab") ?_)).2.1 _ rfl (by decide)
  exact ⟨⟨trivial, fits_registerRun _ (List.mem_cons_self)⟩,
    ⟨trivial, fits_registerRun _ (List.mem_cons_of_mem _ List.mem_cons_self)⟩, trivial⟩

/-- On Windows an alias is registered by another one that differs in case; and a line counts
whose names exclude the host. -/
theorem other_alias_registers :
    (¬ ∀ w, (machine id true).Reachable w → ∀ aliasName, isRegisteredAlias true aliasName w = .ok true →
      ∃ d ∈ w.done, d.action = .register ∧ d.ok = true ∧ d.aliasName = aliasName) ∧
    ¬ ∀ (config : SshConfig) (host : ResolvedHost), config.resolve = .ok host → ∀ names,
      (hostNamesMatch names host ↔ Selects names (config.keyName host.hostname)) := by
  constructor
  · intro h
    have hw := h _ (System.Reachable.run (S := machine id true) .init (registerRun "Lab") ⟨trivial, trivial, trivial⟩)
      (utf8 "lab") (by rfl)
    exact absurd hw (by decide)
  · intro h
    have hw := h oneConfig oneHost rfl (utf8 "!h.example,*")
    rw [selects_iff] at hw
    exact absurd hw (by decide)

end Winsmux.HostProfile
