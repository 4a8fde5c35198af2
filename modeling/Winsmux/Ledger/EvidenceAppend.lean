import Winsmux.Ledger.Evidence

/-!
# Appending to the evidence chain

The log that `attach_evidence_chain_to_event` makes longer: its lines, its typed
records and its chain are the old ones and those of the new event.
-/
namespace Winsmux.Ledger
open Json RemoteHelper

theorem newline_notMem_escapeByte (c : UInt8) : newline ∉ escapeByte c := by
  have hdigit : ∀ d : UInt8, d < 0x10 → escapeByte.hexDigit d ≠ newline := by
    intro d hd
    have hd : d.toNat < 16 := hd
    obtain ⟨n, rfl⟩ : ∃ n : Fin 16, d = UInt8.ofNat n :=
      ⟨⟨d.toNat, hd⟩, by simp⟩
    revert n
    decide
  unfold escapeByte
  split_ifs with h1 h2 h3 h4 h5
  all_goals try decide
  · have hhi : c >>> 4 < 0x10 := by
      change (c >>> 4).toNat < 16
      have := c.toNat_lt
      rw [UInt8.toNat_shiftRight]
      simp only [UInt8.reduceToNat, Nat.reduceMod, Nat.shiftRight_eq_div_pow]
      omega
    have hlo : c &&& 0x0f < 0x10 := by
      change (c &&& 0x0f).toNat < 16
      rw [UInt8.toNat_and]
      exact lt_of_le_of_lt Nat.and_le_right (by decide)
    simp only [List.mem_cons, List.not_mem_nil, or_false, not_or]
    exact ⟨by decide, by decide, by decide, by decide, (hdigit _ hhi).symm, (hdigit _ hlo).symm⟩
  · intro h
    simp_all

theorem newline_notMem_quote (s : Text) : newline ∉ quote s := by
  simp only [quote, escape, List.mem_cons, List.mem_append, List.mem_flatMap, List.not_mem_nil,
    or_false, not_or]
  refine ⟨by decide, ?_, by decide⟩
  rintro ⟨c, -, hc⟩
  exact newline_notMem_escapeByte c hc

theorem newline_notMem_decimal (n : ℕ) : newline ∉ decimal n := by
  simp only [decimal, List.mem_map, not_exists, not_and]
  intro c hc heq
  have hdigit := Nat.isDigit_of_mem_toDigits (by decide) (by decide) hc
  simp only [Char.isDigit, Bool.and_eq_true, decide_eq_true_eq] at hdigit
  have hlo : 48 ≤ c.toNat := hdigit.1
  have hhi : c.toNat ≤ 57 := hdigit.2
  have := congrArg UInt8.toNat heq
  simp only [Nat.toUInt8, UInt8.toNat_ofNat', newline, UInt8.reduceToNat] at this
  omega

theorem newline_notMem_itemsToVec {vs : List Value} (h : ∀ v ∈ vs, newline ∉ v.toVec) :
    newline ∉ itemsToVec vs := by
  induction vs with
  | nil => simp [itemsToVec]
  | cons v vs ih =>
    cases vs with
    | nil => simpa [itemsToVec] using h
    | cons w vs =>
      simp only [itemsToVec, List.mem_append, List.mem_cons, not_or]
      exact ⟨h v (by simp), by decide, ih fun u hu => h u (List.mem_cons_of_mem _ hu)⟩

theorem newline_notMem_entriesToVec {es : List (Text × Value)}
    (h : ∀ e ∈ es, newline ∉ e.2.toVec) : newline ∉ entriesToVec es := by
  induction es with
  | nil => simp [entriesToVec]
  | cons e es ih =>
    have he : newline ∉ e.2.toVec := h e (by simp)
    obtain ⟨k, v⟩ := e
    cases es with
    | nil =>
      simp only [entriesToVec, List.mem_append, List.mem_cons, not_or]
      exact ⟨newline_notMem_quote k, by decide, he⟩
    | cons d es =>
      simp only [entriesToVec, List.mem_append, List.mem_cons, not_or]
      exact ⟨newline_notMem_quote k, by decide, he, by decide,
        ih fun u hu => h u (List.mem_cons_of_mem _ hu)⟩

/-- The text of a canonical value is one line. -/
theorem newline_notMem_toVec {v : Value} (h : v.Canonical) : newline ∉ v.toVec := by
  induction h with
  | null => simp only [Value.toVec]; decide
  | bool b => cases b <;> (simp only [Value.toVec]; decide)
  | num n => simpa using newline_notMem_decimal n
  | number hl =>
    intro hmem
    rw [Value.toVec] at hmem
    exact absurd (List.all_eq_true.mp hl _ hmem) (by decide)
  | str s => simpa using newline_notMem_quote s
  | arr _ ih =>
    simp only [Value.toVec, List.mem_cons, List.mem_append, List.not_mem_nil, or_false, not_or]
    exact ⟨by decide, newline_notMem_itemsToVec ih, by decide⟩
  | obj _ _ ih =>
    simp only [Value.toVec, List.mem_cons, List.mem_append, List.not_mem_nil, or_false, not_or]
    exact ⟨by decide, newline_notMem_entriesToVec ih, by decide⟩

section
variable {sha256 : Text → Digest} {reader : JsonReader}

theorem buildEntries_dropReturns (records : List EventRecord) (index : ℕ) (previous : Text)
    (ls : List Text) : buildEntries sha256 reader records index previous (ls.map dropReturns) =
      buildEntries sha256 reader records index previous ls := by
  induction ls generalizing index previous with
  | nil => rfl
  | cons line ls ih =>
    simp only [List.map_cons, buildEntries, reader.parse_dropReturns, ih]

/-- The entries of a longer log: those of its first part, and then the others. -/
theorem buildEntries_append {records : List EventRecord} {index : ℕ} {previous root : Text}
    {ls : List Text} {entries : List EvidenceChainEntry}
    (h : buildEntries sha256 reader records index previous ls = .ok (entries, root))
    (more : List EventRecord) (ls' : List Text) :
    buildEntries sha256 reader (records ++ more) index previous (ls ++ ls') =
      (buildEntries sha256 reader (records ++ more) (index + ls.length) root ls').map
        fun p => (entries ++ p.1, p.2) := by
  induction ls generalizing index previous entries with
  | nil =>
    obtain ⟨rfl, rfl⟩ : [] = entries ∧ previous = root := by simpa [buildEntries] using h
    cases h' : buildEntries sha256 reader (records ++ more) (index + 0) previous ls' <;>
      simp_all [Except.map]
  | cons line ls ih =>
    simp only [List.cons_append, buildEntries, List.length_cons] at h ⊢
    rw [show index + (ls.length + 1) = index + 1 + ls.length by omega]
    cases hp : reader.parse (eventLine index line) with
    | none => simp [hp] at h
    | some document =>
      cases hr : records[index]? with
      | none => simp [hp, hr] at h
      | some record =>
        have hr' : (records ++ more)[index]? = some record := by
          rw [List.getElem?_append_left (List.getElem?_eq_some_iff.mp hr).1, hr]
        simp only [hp, hr] at h
        simp only [hr']
        cases hb : buildEntries sha256 reader records (index + 1)
            (chainEntry sha256 index record previous document.normal).chainHash ls with
        | error => simp [hb, Except.map] at h
        | ok p =>
          obtain ⟨rest, root'⟩ := p
          obtain ⟨rfl, rfl⟩ : _ :: rest = entries ∧ root' = root := by
            simpa [hb, Except.map] using h
          rw [ih hb]
          cases buildEntries sha256 reader (records ++ more) (index + 1 + ls.length) root' ls' <;> rfl

/-- One typed record for each line that is not blank. -/
theorem parseEventLines_length {index : ℕ} {ls : List Text} {records : List EventRecord}
    (h : parseEventLines reader index ls = .ok records) :
    records.length = (ls.filter fun line => !isBlank line).length := by
  induction ls generalizing index records with
  | nil =>
    obtain rfl : [] = records := by simpa [parseEventLines] using h
    rfl
  | cons line ls ih =>
    rw [parseEventLines] at h
    by_cases hb : isBlank line
    · rw [if_pos hb] at h
      simpa [hb] using ih h
    · rw [if_neg hb] at h
      cases hr : (reader.parse (eventLine index line)).bind readEvent with
      | none => simp [hr] at h
      | some record =>
        simp only [hr, bind, Except.bind] at h
        cases hv : record.validate (index + 1) with
        | error => simp [hv] at h
        | ok =>
          cases hl : parseEventLines reader (index + 1) ls with
          | error => simp [hv, hl] at h
          | ok rest =>
            obtain rfl : record :: rest = records := by simpa [hv, hl] using h
            simpa [hb] using ih hl

theorem eventLines_appendLine (content : Text) {line : Text} (h : newline ∉ line)
    (hcr : line.getLast? ≠ some carriageReturn) (hblank : isBlank line = false) :
    (eventLines (appendLine content line)).map dropReturns =
      (eventLines content).map dropReturns ++ [line] := by
  have hfilter : ∀ ls : List Text, (ls.filter fun l => !isBlank l).map dropReturns =
      (ls.map dropReturns).filter fun l => !isBlank l := by
    intro ls
    rw [List.filter_map]
    congr 2
    ext l
    simp [isBlank_dropReturns]
  unfold eventLines
  rw [hfilter, hfilter, lines_appendLine_dropReturns content h hcr, List.filter_append]
  simp [hblank]

/-- An event with the record of the chain in its data. -/
def withRecord (entries data : List (Text × Value)) (record : Value) : Value :=
  .obj (insertKey (utf8 "data") (.obj (insertKey (utf8 "evidence_chain") record data)) entries)

theorem evidenceChainOf_withRecord (entries data : List (Text × Value)) (record : Value) :
    evidenceChainOf (withRecord entries data record) = some record := by
  simp [evidenceChainOf, withRecord, Value.get]

theorem chainRecord_fields {event : Value} {previousHash eventHash chainHash : Text}
    (h : evidenceChainOf event = some (chainRecord previousHash eventHash chainHash)) :
    evidenceChainField event "previous_hash" = previousHash ∧
      evidenceChainField event "event_hash" = eventHash ∧
      evidenceChainField event "chain_hash" = chainHash := by
  have h1 : (utf8 "previous_hash" == utf8 "chain_hash") = false := by decide
  have h2 : (utf8 "previous_hash" == utf8 "event_hash") = false := by decide
  have h3 : (utf8 "event_hash" == utf8 "chain_hash") = false := by decide
  simp [evidenceChainField, h, chainRecord, Value.get, List.lookup_cons, h1, h2, h3, Value.asStr]

/-- Behind a record, an event with data is the event that was hashed. -/
theorem withoutChain_withRecord {entries data : List (Text × Value)} (hs : Sorted entries)
    (h : entries.lookup (utf8 "data") = some (.obj data)) (record : Value) :
    withoutChain (withRecord entries data record) = withoutChain (.obj entries) := by
  simp only [withRecord, withoutChain]
  rw [updateKey_insertKey hs h]
  simp [dropChain]

/-- An event without data comes back with empty data. -/
theorem withoutChain_withRecord_of_none {entries : List (Text × Value)}
    (h : entries.lookup (utf8 "data") = none) (record : Value) :
    withoutChain (withRecord entries [] record) =
      .obj (insertKey (utf8 "data") (.obj []) entries) := by
  simp only [withRecord, withoutChain]
  rw [updateKey_insertKey_of_none h]
  simp [dropChain, insertKey, eraseKey]

theorem withoutChain_of_none {entries : List (Text × Value)}
    (h : entries.lookup (utf8 "data") = none) : withoutChain (.obj entries) = .obj entries := by
  rw [withoutChain, updateKey_of_lookup_eq_none h]

theorem Canonical.withRecord {entries data : List (Text × Value)} {record : Value}
    (h : (Value.obj entries).Canonical) (hdata : (Value.obj data).Canonical)
    (hr : record.Canonical) : (withRecord entries data record).Canonical := by
  obtain _ | _ | _ | _ | _ | _ | ⟨hs, he⟩ := h
  obtain _ | _ | _ | _ | _ | _ | ⟨hds, hde⟩ := hdata
  refine .obj hs.insertKey fun e hmem => ?_
  rcases mem_insertKey hmem with rfl | hmem
  · refine .obj hds.insertKey fun d hmem => ?_
    rcases mem_insertKey hmem with rfl | hmem
    · exact hr
    · exact hde d hmem
  · exact he e hmem

theorem chainRecord_canonical (p e c : Text) : (chainRecord p e c).Canonical := by
  refine .obj ?_ ?_
  · have h1 : rank (utf8 "chain_hash") < rank (utf8 "event_hash") := by decide
    have h2 : rank (utf8 "event_hash") < rank (utf8 "previous_hash") := by decide
    simp [Sorted, h1, h2, h1.trans h2]
  · intro d hd
    simp only [List.mem_cons, List.not_mem_nil, or_false] at hd
    rcases hd with rfl | rfl | rfl <;> exact .str _

theorem Sorted.nodup {es : List (Text × Value)} (h : Sorted es) : (es.map Prod.fst).Nodup := by
  refine List.Pairwise.map _ (fun d e hlt heq => ?_) h
  rw [heq] at hlt
  exact lt_irrefl _ hlt

/-- Two readings that agree but for the data. -/
theorem readEventFields_data {f g : String → Option Value} {record : EventRecord} {d : Value}
    (hfg : ∀ name ∈ eventFields.dropLast, g name = f name) (h : readEventFields f = some record)
    (hd : readEventData (g "data") = some d) :
    readEventFields g = some { record with data := d } := by
  simp only [eventFields, List.dropLast, List.mem_cons, List.not_mem_nil, or_false,
    forall_eq_or_imp, forall_eq] at hfg
  obtain ⟨h1, h2, h3, h4, h5, h6, h7, h8, h9, h10, h11, h12, h13, h14⟩ := hfg
  unfold readEventFields at h ⊢
  rw [h1, h2, h3, h4, h5, h6, h7, h8, h9, h10, h11, h12, h13, h14, hd]
  obtain ⟨_, r1, h⟩ := Option.bind_eq_some_iff.mp h
  obtain ⟨_, r2, h⟩ := Option.bind_eq_some_iff.mp h
  obtain ⟨_, r3, h⟩ := Option.bind_eq_some_iff.mp h
  obtain ⟨_, r4, h⟩ := Option.bind_eq_some_iff.mp h
  obtain ⟨_, r5, h⟩ := Option.bind_eq_some_iff.mp h
  obtain ⟨_, r6, h⟩ := Option.bind_eq_some_iff.mp h
  obtain ⟨_, r7, h⟩ := Option.bind_eq_some_iff.mp h
  obtain ⟨_, r8, h⟩ := Option.bind_eq_some_iff.mp h
  obtain ⟨_, r9, h⟩ := Option.bind_eq_some_iff.mp h
  obtain ⟨_, r10, h⟩ := Option.bind_eq_some_iff.mp h
  obtain ⟨_, r11, h⟩ := Option.bind_eq_some_iff.mp h
  obtain ⟨_, r12, h⟩ := Option.bind_eq_some_iff.mp h
  obtain ⟨_, r13, h⟩ := Option.bind_eq_some_iff.mp h
  obtain ⟨_, r14, h⟩ := Option.bind_eq_some_iff.mp h
  obtain ⟨_, -, h⟩ := Option.bind_eq_some_iff.mp h
  cases h
  rw [r1, r2, r3, r4, r5, r6, r7, r8, r9, r10, r11, r12, r13, r14]
  rfl

theorem readEvent_withRecord {entries : List (Text × Value)} {typed : EventRecord}
    (data : List (Text × Value)) (record : Value) (hs : Sorted entries) (h : readEvent (.obj entries) = some typed) :
    ∃ d, readEvent (withRecord entries data record) = some { typed with data := d } := by
  simp only [readEvent] at h
  split_ifs at h with hcond
  have hknown : knownFields (eventFields.map utf8) (withRecord entries data record) := by
    simp only [withRecord, knownFields, List.all_eq_true, decide_eq_true_eq] at hcond ⊢
    intro e he
    rcases mem_insertKey he with rfl | he
    · exact List.mem_map_of_mem (by simp [eventFields])
    · exact hcond.2 e he
  refine ⟨(Value.obj (insertKey (utf8 "evidence_chain") record data)).normal, ?_⟩
  rw [withRecord] at hknown ⊢
  rw [readEvent, if_pos ⟨Sorted.nodup hs.insertKey, hknown⟩]
  refine readEventFields_data ?_ h ?_
  · simp only [eventFields, List.dropLast, List.mem_cons, List.not_mem_nil, or_false,
      forall_eq_or_imp, forall_eq]
    refine ⟨?_, ?_, ?_, ?_, ?_, ?_, ?_, ?_, ?_, ?_, ?_, ?_, ?_, ?_⟩ <;>
      exact lookup_insertKey_ne (by decide)
  · rw [lookup_insertKey_self]
    rfl

/-- The event is attached, and the log with it at its end is a verified log of one
entry more, whose root is the hash that the event carries. -/
structure Appended (sha256 : Text → Digest) (reader : JsonReader) (content : Text)
    (chain : EvidenceChainProjection) (event attached : Value) (records' : List EventRecord)
    (chain' : EvidenceChainProjection) : Prop where
  attach : attachEvidenceChainToEvent sha256 reader content event = .ok attached
  parse : parseEventJsonl reader (appendLine content attached.toVec) = .ok records'
  build : buildEvidenceChain sha256 reader (appendLine content attached.toVec) records' = .ok chain'
  verified : ∀ e ∈ chain'.entries, e.integrityStatus = .verified
  count : chain'.summary.entryCount = chain.summary.entryCount + 1
  status : chain'.summary.integrityStatus = .verified
  root : chain'.summary.rootHash = evidenceChainField attached "chain_hash"

/-- The event that `attach_evidence_chain_to_event` makes. -/
def attachedEvent (sha256 : Text → Digest) (root : Text) (entries data : List (Text × Value)) :
    Value :=
  withRecord entries data (chainRecord root (evidenceEventHash sha256 (.obj entries))
    (evidenceChainHash sha256 root (evidenceEventHash sha256 (.obj entries))))

variable {content : Text} {records : List EventRecord} {chain : EvidenceChainProjection}
  {entries data : List (Text × Value)}

theorem attach_eq (hparse : parseEventJsonl reader content = .ok records)
    (hbuild : buildEvidenceChain sha256 reader content records = .ok chain)
    (hdata : (entries.lookup (utf8 "data")).getD (.obj []) = .obj data) :
    attachEvidenceChainToEvent sha256 reader content (.obj entries) =
      .ok (attachedEvent sha256 chain.summary.rootHash entries data) := by
  unfold attachEvidenceChainToEvent
  simp only [hparse, hbuild, bind, Except.bind, hdata]
  rfl

/-- The text of an object is a line that is read as it stands. -/
theorem line_of_canonical {es : List (Text × Value)} (h : (Value.obj es).Canonical) :
    newline ∉ (Value.obj es).toVec ∧ (Value.obj es).toVec.getLast? ≠ some carriageReturn ∧
      isBlank (Value.obj es).toVec = false ∧
      ∀ i, eventLine i (Value.obj es).toVec = (Value.obj es).toVec := by
  refine ⟨newline_notMem_toVec h, ?_, ?_, fun i => ?_⟩ <;> simp only [Value.toVec]
  · rw [← List.cons_append, List.getLast?_concat]
    decide
  · exact not_isBlank_of_head (by decide) (by decide)
  · unfold eventLine
    rw [trimBom_eq_self (by decide), ite_self]

theorem attachedEvent_line {root : Text} (h : (attachedEvent sha256 root entries data).Canonical) :
    newline ∉ (attachedEvent sha256 root entries data).toVec ∧
      (attachedEvent sha256 root entries data).toVec.getLast? ≠ some carriageReturn ∧
      isBlank (attachedEvent sha256 root entries data).toVec = false ∧
      ∀ i, eventLine i (attachedEvent sha256 root entries data).toVec =
        (attachedEvent sha256 root entries data).toVec :=
  line_of_canonical h

/-- The typed records of the longer log. -/
theorem parse_appended (hparse : parseEventJsonl reader content = .ok records) {attached : Value}
    {typed : EventRecord} {line : Text} (hline : newline ∉ line)
    (hcr : line.getLast? ≠ some carriageReturn) (hblank : isBlank line = false)
    (heventLine : ∀ i, eventLine i line = line) (hread : reader.parse line = some attached)
    (htyped : readEvent attached = some typed) :
    parseEventJsonl reader (appendLine content line) =
      (typed.validate ((lines content).length + 1)).map fun _ => records ++ [typed] := by
  have h : parseEventLines reader 0 ((lines content).map dropReturns) = .ok records := by
    rw [parseEventLines_dropReturns]
    exact hparse
  rw [parseEventJsonl, ← parseEventLines_dropReturns,
    lines_appendLine_dropReturns content hline hcr, parseEventLines_append h]
  simp only [parseEventLines, hblank, heventLine, hread, List.length_map, Option.bind_some, htyped,
    Bool.false_eq_true, ↓reduceIte, Nat.zero_add, bind, Except.bind]
  cases typed.validate ((lines content).length + 1) <;> rfl

/-- The chain of the longer log. -/
theorem build_appended (hparse : parseEventJsonl reader content = .ok records)
    (hbuild : buildEvidenceChain sha256 reader content records = .ok chain) {attached : Value}
    {line : Text} (hline : newline ∉ line)
    (hcr : line.getLast? ≠ some carriageReturn) (hblank : isBlank line = false)
    (heventLine : ∀ i, eventLine i line = line) (hread : reader.parse line = some attached)
    (hnormal : attached.normal = attached) (typed : EventRecord) :
    let entry := chainEntry sha256 records.length typed chain.summary.rootHash attached
    buildEvidenceChain sha256 reader (appendLine content line) (records ++ [typed]) =
      .ok ⟨summarize (chain.entries ++ [entry]) entry.chainHash, chain.entries ++ [entry]⟩ := by
  have hlen : records.length = (eventLines content).length := parseEventLines_length hparse
  unfold buildEvidenceChain at hbuild ⊢
  cases hb : buildEntries sha256 reader records 0 [] (eventLines content) with
  | error => simp [hb, Except.map] at hbuild
  | ok p =>
    obtain ⟨es, root⟩ := p
    obtain rfl : (⟨summarize es root, es⟩ : EvidenceChainProjection) = chain := by
      simpa [hb, Except.map] using hbuild
    rw [← buildEntries_dropReturns] at hb
    rw [← buildEntries_dropReturns, eventLines_appendLine content hline hcr hblank,
      buildEntries_append hb]
    have hget : (records ++ [typed])[(eventLines content).length]? = some typed := by
      simp [← hlen]
    simp only [List.length_map, Nat.zero_add, buildEntries, heventLine, hread, hget, hnormal]
    rw [← hlen]
    rfl

/-- The entry of the attached event agrees with its record, but for the hash of the event. -/
theorem attachedEvent_status {root : Text} {index : ℕ} {typed : EventRecord} :
    (chainEntry sha256 index typed root (attachedEvent sha256 root entries data)).recorded ∧
      ((chainEntry sha256 index typed root
          (attachedEvent sha256 root entries data)).integrityStatus = .verified ↔
        evidenceEventHash sha256 (attachedEvent sha256 root entries data) =
          evidenceEventHash sha256 (.obj entries)) := by
  obtain ⟨hprev, hevent, hchain⟩ := chainRecord_fields
    (evidenceChainOf_withRecord entries data (chainRecord root
      (evidenceEventHash sha256 (.obj entries))
      (evidenceChainHash sha256 root (evidenceEventHash sha256 (.obj entries)))))
  have hblank : isBlank (evidenceEventHash sha256 (.obj entries)) = false := isBlank_hex _
  constructor
  · simp [chainEntry, EvidenceChainEntry.recorded, attachedEvent, hevent, hblank]
  · simp only [chainEntry, attachedEvent, hprev, hevent, hchain, evidenceIntegrityStatus, hblank]
    constructor
    · intro h
      rw [if_neg (by simp)] at h
      split_ifs at h with hfields
      exact hfields.2.1.symm
    · intro h
      rw [h]
      simp

/-- A log of recorded and verified entries stays one when such an entry is added. -/
theorem summarize_verified {es : List EvidenceChainEntry} (root : Text) (hne : es ≠ [])
    (hrec : ∀ e ∈ es, e.recorded) (hver : ∀ e ∈ es, e.integrityStatus = .verified) :
    (summarize es root).integrityStatus = .verified := by
  have htamper : es.countP (·.integrityStatus = .tamperDetected) = 0 := by
    rw [List.countP_eq_zero]
    intro e he
    simp [hver e he]
  have hcount : es.countP (·.recorded) = es.length := List.countP_eq_length.mpr hrec
  simp [summarize, htamper, hcount, hne]

/-- Where the hashes before and after the record agree, the event is appended. -/
theorem appended_of_hash (hparse : parseEventJsonl reader content = .ok records)
    (hbuild : buildEvidenceChain sha256 reader content records = .ok chain)
    (hchain : ∀ e ∈ chain.entries, e.recorded ∧ e.integrityStatus = .verified)
    (hcanonical : (attachedEvent sha256 chain.summary.rootHash entries data).Canonical)
    {typed : EventRecord} (htyped : readEvent (.obj entries) = some typed)
    (hsorted : Sorted entries)
    (hdata : (entries.lookup (utf8 "data")).getD (.obj []) = .obj data)
    (hexact : reader.parse (attachedEvent sha256 chain.summary.rootHash entries data).toVec =
      some (attachedEvent sha256 chain.summary.rootHash entries data))
    (hvalid : isBlank typed.timestamp = false ∧ isBlank typed.event = false)
    (hhash : evidenceEventHash sha256 (attachedEvent sha256 chain.summary.rootHash entries data) =
      evidenceEventHash sha256 (.obj entries)) :
    ∃ attached records' chain', Appended sha256 reader content chain (.obj entries) attached
      records' chain' := by
  obtain ⟨hline, hcr, hblank, heventLine⟩ := attachedEvent_line hcanonical
  obtain ⟨d, htyped'⟩ := readEvent_withRecord data
    (chainRecord chain.summary.rootHash (evidenceEventHash sha256 (.obj entries))
      (evidenceChainHash sha256 chain.summary.rootHash (evidenceEventHash sha256 (.obj entries))))
    hsorted htyped
  have hp := parse_appended hparse hline hcr hblank heventLine hexact htyped'
  have hb := build_appended hparse hbuild hline hcr hblank heventLine hexact hcanonical.normal
    { typed with data := d }
  have hstatus : (chainEntry sha256 records.length { typed with data := d }
      chain.summary.rootHash (attachedEvent sha256 chain.summary.rootHash entries data)).recorded ∧
      _ := attachedEvent_status
  obtain ⟨hrec, hver⟩ := hstatus
  have hall : ∀ e ∈ chain.entries ++ [chainEntry sha256 records.length { typed with data := d }
      chain.summary.rootHash (attachedEvent sha256 chain.summary.rootHash entries data)],
      e.recorded ∧ e.integrityStatus = .verified := by
    intro e he
    rcases List.mem_append.mp he with he | he
    · exact hchain e he
    · rw [List.mem_singleton.mp he]
      exact ⟨hrec, hver.mpr hhash⟩
  refine ⟨_, records ++ [{ typed with data := d }], _, attach_eq hparse hbuild hdata, ?_, hb,
    fun e he => (hall e he).2, ?_, ?_, ?_⟩
  · rw [hp]
    simp [EventRecord.validate, hvalid, Except.map]
  · have hcount : chain.summary.entryCount = chain.entries.length := by
      unfold buildEvidenceChain at hbuild
      cases h : buildEntries sha256 reader records 0 [] (eventLines content) with
      | error => simp [h, Except.map] at hbuild
      | ok p =>
        obtain rfl : (⟨summarize p.1 p.2, p.1⟩ : EvidenceChainProjection) = chain := by
          simpa [h, Except.map] using hbuild
        rfl
    simp [summarize, hcount]
  · exact summarize_verified _ (by simp) (fun e he => (hall e he).1) fun e he => (hall e he).2
  · have hfield := (chainRecord_fields (evidenceChainOf_withRecord entries data
      (chainRecord chain.summary.rootHash (evidenceEventHash sha256 (.obj entries))
        (evidenceChainHash sha256 chain.summary.rootHash
          (evidenceEventHash sha256 (.obj entries)))))).2.2
    simp only [summarize, chainEntry, hhash]
    exact hfield.symm

/-- An event that is appended has its hash behind the record too, and is valid. -/
theorem hash_of_appended (hparse : parseEventJsonl reader content = .ok records)
    (hbuild : buildEvidenceChain sha256 reader content records = .ok chain)
    (hcanonical : (attachedEvent sha256 chain.summary.rootHash entries data).Canonical)
    {typed : EventRecord} (htyped : readEvent (.obj entries) = some typed)
    (hsorted : Sorted entries)
    (hdata : (entries.lookup (utf8 "data")).getD (.obj []) = .obj data)
    (hexact : reader.parse (attachedEvent sha256 chain.summary.rootHash entries data).toVec =
      some (attachedEvent sha256 chain.summary.rootHash entries data))
    {attached : Value} {records' : List EventRecord} {chain' : EvidenceChainProjection}
    (h : Appended sha256 reader content chain (.obj entries) attached records' chain') :
    (isBlank typed.timestamp = false ∧ isBlank typed.event = false) ∧
      evidenceEventHash sha256 (attachedEvent sha256 chain.summary.rootHash entries data) =
        evidenceEventHash sha256 (.obj entries) := by
  obtain rfl : attachedEvent sha256 chain.summary.rootHash entries data = attached := by
    have hattach := h.attach
    rw [attach_eq hparse hbuild hdata] at hattach
    exact Except.ok.inj hattach
  obtain ⟨hline, hcr, hblank, heventLine⟩ := attachedEvent_line hcanonical
  obtain ⟨d, htyped'⟩ := readEvent_withRecord data
    (chainRecord chain.summary.rootHash (evidenceEventHash sha256 (.obj entries))
      (evidenceChainHash sha256 chain.summary.rootHash (evidenceEventHash sha256 (.obj entries))))
    hsorted htyped
  have hp := parse_appended hparse hline hcr hblank heventLine hexact htyped'
  rw [h.parse] at hp
  cases hv : ({ typed with data := d } : EventRecord).validate ((lines content).length + 1) with
  | error => simp [hv, Except.map] at hp
  | ok =>
    obtain rfl : records' = records ++ [{ typed with data := d }] := by
      simpa [hv, Except.map] using hp
    have hb := build_appended hparse hbuild hline hcr hblank heventLine hexact
      hcanonical.normal { typed with data := d }
    rw [h.build] at hb
    have hlast := h.verified (chainEntry sha256 records.length { typed with data := d }
      chain.summary.rootHash (attachedEvent sha256 chain.summary.rootHash entries data)) (by
        rw [Except.ok.inj hb]
        simp)
    refine ⟨?_, attachedEvent_status.2.mp hlast⟩
    simp only [EventRecord.validate] at hv
    split_ifs at hv with h1 h2
    exact ⟨by simpa using h1, by simpa using h2⟩

/-- The two texts that are hashed for an event without data, before and after its record. -/
theorem hash_attachedEvent_iff {root : Text} (hsorted : Sorted entries)
    (hdata : (entries.lookup (utf8 "data")).getD (.obj []) = .obj data) :
    evidenceEventHash sha256 (attachedEvent sha256 root entries data) =
        evidenceEventHash sha256 (.obj entries) ↔
      entries.lookup (utf8 "data") ≠ none ∨
        sha256 (Value.obj (insertKey (utf8 "data") (.obj []) entries)).toVec =
          sha256 (Value.obj entries).toVec := by
  cases hl : entries.lookup (utf8 "data") with
  | some v =>
    obtain rfl : v = .obj data := by simpa [hl] using hdata
    simp [evidenceEventHash, attachedEvent, withoutChain_withRecord hsorted hl]
  | none =>
    obtain rfl : [] = data := by simpa [hl] using hdata
    simp only [evidenceEventHash, attachedEvent, withoutChain_withRecord_of_none hl,
      withoutChain_of_none hl, sha256Hex, ne_eq, not_true_eq_false, false_or]
    exact hex_injective.eq_iff

theorem attachedEvent_canonical {root : Text} (hevent : (Value.obj entries).Canonical)
    (hdata : (entries.lookup (utf8 "data")).getD (.obj []) = .obj data) :
    (attachedEvent sha256 root entries data).Canonical := by
  refine Canonical.withRecord hevent ?_ (chainRecord_canonical _ _ _)
  cases hl : entries.lookup (utf8 "data") with
  | some v =>
    obtain rfl : v = .obj data := by simpa [hl] using hdata
    obtain _ | _ | _ | _ | _ | _ | ⟨-, he⟩ := hevent
    exact he _ (mem_of_lookup hl)
  | none =>
    obtain rfl : [] = data := by simpa [hl] using hdata
    exact .obj (by simp [Sorted]) (by simp)

end

/-- An event is appended to a verified log just in case it is valid and has data (or
its hash is that of the event with empty data). -/
theorem evidence_appended_iff (sha256 : Text → Digest) (reader : JsonReader) (content : Text)
    (records : List EventRecord) (chain : EvidenceChainProjection)
    (entries data : List (Text × Value)) (typed : EventRecord)
    (hparse : parseEventJsonl reader content = .ok records)
    (hbuild : buildEvidenceChain sha256 reader content records = .ok chain)
    (hchain : ∀ e ∈ chain.entries, e.recorded ∧ e.integrityStatus = .verified)
    (hevent : (Value.obj entries).Canonical) (htyped : readEvent (.obj entries) = some typed)
    (hdata : (entries.lookup (utf8 "data")).getD (.obj []) = .obj data)
    (hexact : ∀ attached, attachEvidenceChainToEvent sha256 reader content (.obj entries) =
      .ok attached → reader.parse attached.toVec = some attached) :
    (∃ attached records' chain', Appended sha256 reader content chain (.obj entries) attached
        records' chain') ↔
      (isBlank typed.timestamp = false ∧ isBlank typed.event = false) ∧
        (entries.lookup (utf8 "data") ≠ none ∨
          sha256 (Value.obj (insertKey (utf8 "data") (.obj []) entries)).toVec =
            sha256 (Value.obj entries).toVec) := by
  have hsorted : Sorted entries := by
    obtain _ | _ | _ | _ | _ | _ | ⟨hs, -⟩ := hevent
    exact hs
  have hcanonical : (attachedEvent sha256 chain.summary.rootHash entries data).Canonical :=
    attachedEvent_canonical hevent hdata
  have hexact' := hexact _ (attach_eq hparse hbuild hdata)
  have hiff : evidenceEventHash sha256 (attachedEvent sha256 chain.summary.rootHash entries data) =
      evidenceEventHash sha256 (.obj entries) ↔ _ := hash_attachedEvent_iff hsorted hdata
  rw [← hiff]
  constructor
  · rintro ⟨attached, records', chain', h⟩
    exact hash_of_appended hparse hbuild hcanonical htyped hsorted hdata hexact' h
  · rintro ⟨hvalid, hhash⟩
    exact appended_of_hash hparse hbuild hchain hcanonical htyped hsorted hdata hexact' hvalid hhash

/-- The least event record. -/
def bareEvent : List (Text × Value) :=
  [(utf8 "event", .str (utf8 "e")), (utf8 "timestamp", .str (utf8 "t"))]

def bareEventData : List (Text × Value) := (utf8 "data", .obj []) :: bareEvent

/-- The event with data under another name. -/
def editedData : List (Text × Value) :=
  [(utf8 "data", .obj []), (utf8 "event", .str (utf8 "f")), (utf8 "timestamp", .str (utf8 "t"))]

/-- The digests of these events, and of the text that links each to an empty chain. -/
def sampleDigests : List (Text × Digest) :=
  [((Value.obj bareEvent).toVec,
      #v[247, 129, 63, 229, 4, 88, 89, 38, 199, 158, 34, 49, 156, 152, 77, 1,
      41, 89, 166, 212, 64, 84, 183, 101, 233, 194, 228, 232, 80, 224, 209, 37]),
    ((Value.obj bareEventData).toVec,
      #v[69, 132, 9, 142, 90, 42, 39, 137, 126, 252, 105, 215, 144, 33, 131, 21,
      37, 14, 161, 144, 132, 88, 47, 92, 13, 6, 144, 71, 255, 231, 79, 94]),
    ((Value.obj editedData).toVec,
      #v[26, 61, 25, 117, 105, 188, 38, 68, 128, 148, 128, 250, 15, 39, 237, 188,
      101, 171, 105, 223, 1, 38, 50, 21, 211, 158, 239, 86, 78, 210, 241, 122]),
    (chainPayload [] (utf8 "f7813fe504585926c79e22319c984d012959a6d44054b765e9c2e4e850e0d125"),
      #v[144, 144, 123, 235, 189, 131, 63, 228, 210, 24, 215, 228, 98, 229, 223, 156,
      4, 238, 128, 187, 85, 60, 55, 50, 182, 213, 70, 46, 243, 72, 95, 93]),
    (chainPayload [] (utf8 "4584098e5a2a27897efc69d790218315250ea19084582f5c0d069047ffe74f5e"),
      #v[69, 233, 2, 132, 135, 95, 90, 20, 47, 245, 197, 221, 192, 160, 253, 116,
      28, 241, 199, 0, 247, 147, 70, 247, 65, 124, 165, 138, 73, 121, 136, 120]),
    (chainPayload [] (utf8 "1a3d197569bc2644809480fa0f27edbc65ab69df01263215d39eef564ed2f17a"),
      #v[67, 126, 33, 86, 215, 34, 126, 230, 153, 118, 153, 4, 87, 47, 224, 20,
      174, 165, 187, 199, 143, 29, 171, 103, 19, 82, 102, 83, 100, 93, 160, 130])]

def sampleDigest (t : Text) : Digest := (sampleDigests.lookup t).getD (Vector.replicate 32 0)

theorem canonical_obj_str {es : List (Text × Value)} (hs : Sorted es)
    (h : ∀ e ∈ es, (∃ t, e.2 = .str t) ∨ e.2 = .obj []) : (Value.obj es).Canonical := by
  refine .obj hs fun e he => ?_
  obtain ⟨t, ht⟩ | ht := h e he
  · rw [ht]
    exact .str t
  · rw [ht]
    exact .obj (by simp [Sorted]) (by simp)

theorem bareEvent_canonical : (Value.obj bareEvent).Canonical := by
  have h : rank (utf8 "event") < rank (utf8 "timestamp") := by decide
  exact canonical_obj_str (by simp [bareEvent, Sorted, h]) (by simp [bareEvent])

theorem bareEventData_canonical : (Value.obj bareEventData).Canonical := by
  have h : rank (utf8 "event") < rank (utf8 "timestamp") := by decide
  have h' : rank (utf8 "data") < rank (utf8 "event") := by decide
  exact canonical_obj_str (by simp [bareEventData, bareEvent, Sorted, h, h', h'.trans h])
    (by simp [bareEventData, bareEvent])

/-- The log before its first event. -/
def emptyChain : EvidenceChainProjection := ⟨summarize [] [], []⟩

def bareRecord (data : Value) : EventRecord :=
  ⟨utf8 "t", utf8 "e", [], [], [], [], [], [], [], [], [], [], [], [], data⟩

/-- A parser that reads back the event attached to the empty log. -/
theorem readerOf_attached {entries data : List (Text × Value)} {reader : JsonReader}
    (hreader : reader = readerOf [attachedEvent sampleDigest [] entries data])
    (hevent : (Value.obj entries).Canonical)
    (hdata : (entries.lookup (utf8 "data")).getD (.obj []) = .obj data) (attached : Value)
    (h : attachEvidenceChainToEvent sampleDigest reader [] (.obj entries) = .ok attached) :
    reader.parse attached.toVec = some attached := by
  have hattach : attachEvidenceChainToEvent sampleDigest reader [] (.obj entries) =
      .ok (attachedEvent sampleDigest emptyChain.summary.rootHash entries data) :=
    attach_eq rfl rfl hdata
  rw [hattach] at h
  rw [← Except.ok.inj h, hreader]
  refine readerOf_parse ?_ (List.mem_singleton.mpr rfl)
    (attachedEvent_line (attachedEvent_canonical hevent hdata)).2.1
  exact List.nodup_singleton _

theorem evidence_appended_iff_data :
    (∃ attached records' chain', Appended sampleDigest
        (readerOf [attachedEvent sampleDigest [] bareEventData []]) [] emptyChain
        (.obj bareEventData) attached records' chain') ↔
      (isBlank (utf8 "t") = false ∧ isBlank (utf8 "e") = false) ∧
        (bareEventData.lookup (utf8 "data") ≠ none ∨
          sampleDigest (Value.obj (insertKey (utf8 "data") (.obj []) bareEventData)).toVec =
            sampleDigest (Value.obj bareEventData).toVec) :=
  evidence_appended_iff sampleDigest _ [] [] emptyChain bareEventData [] (bareRecord (.obj [])) rfl
    rfl (by simp [emptyChain]) bareEventData_canonical rfl rfl
    (readerOf_attached rfl bareEventData_canonical rfl)

/-- An event without data is attached, and its log then reads as tampered with. -/
theorem appended_event_without_data :
    ¬ ∀ (sha256 : Text → Digest) (reader : JsonReader) (content : Text)
      (records : List EventRecord) (chain : EvidenceChainProjection)
      (entries data : List (Text × Value)) (typed : EventRecord),
      parseEventJsonl reader content = .ok records →
      buildEvidenceChain sha256 reader content records = .ok chain →
      (∀ e ∈ chain.entries, e.recorded ∧ e.integrityStatus = .verified) →
      (Value.obj entries).Canonical → readEvent (.obj entries) = some typed →
      isBlank typed.timestamp = false → isBlank typed.event = false →
      (entries.lookup (utf8 "data")).getD (.obj []) = .obj data →
      (∀ attached, attachEvidenceChainToEvent sha256 reader content (.obj entries) =
        .ok attached → reader.parse attached.toVec = some attached) →
      ∃ attached records' chain', Appended sha256 reader content chain (.obj entries) attached
        records' chain' := by
  intro hclaim
  have hexact : ∀ attached, attachEvidenceChainToEvent sampleDigest
      (readerOf [attachedEvent sampleDigest [] bareEvent []]) [] (.obj bareEvent) = .ok attached →
      (readerOf [attachedEvent sampleDigest [] bareEvent []]).parse attached.toVec =
        some attached := readerOf_attached rfl bareEvent_canonical rfl
  have hsorted : Sorted bareEvent := by
    obtain _ | _ | _ | _ | _ | _ | ⟨hs, -⟩ := bareEvent_canonical
    exact hs
  obtain ⟨attached, records', chain', h⟩ := hclaim sampleDigest
    (readerOf [attachedEvent sampleDigest [] bareEvent []]) [] [] emptyChain bareEvent []
    (bareRecord .null) rfl rfl (by simp [emptyChain]) bareEvent_canonical rfl rfl rfl rfl hexact
  have hcanonical : (attachedEvent sampleDigest emptyChain.summary.rootHash bareEvent []).Canonical :=
    attachedEvent_canonical bareEvent_canonical rfl
  have hattach : attachEvidenceChainToEvent sampleDigest
      (readerOf [attachedEvent sampleDigest [] bareEvent []]) [] (.obj bareEvent) =
      .ok (attachedEvent sampleDigest emptyChain.summary.rootHash bareEvent []) :=
    attach_eq rfl rfl rfl
  have htyped : readEvent (.obj bareEvent) = some (bareRecord .null) := rfl
  have hhash := (hash_of_appended rfl rfl hcanonical htyped hsorted rfl (hexact _ hattach) h).2
  rw [hash_attachedEvent_iff hsorted rfl] at hhash
  revert hhash
  decide

end Winsmux.Ledger
