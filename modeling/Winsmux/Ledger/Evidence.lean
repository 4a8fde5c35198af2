import Winsmux.HashChain
import Winsmux.Ledger.EventContract

/-!
# The evidence chain of an event log

Each event is hashed without its `data.evidence_chain`, and each hash is linked to
the chain before it. A recorded event carries the three hashes; the chain compares
them with its own.
-/
namespace Winsmux.Ledger
open Json

/-- The 32 bytes of SHA-256. -/
abbrev Digest := Vector UInt8 32

def hexDigit (n : ℕ) : UInt8 := if n < 10 then (0x30 + n).toUInt8 else (0x57 + n).toUInt8

def hexByte (b : UInt8) : Text := [hexDigit (b.toNat / 16), hexDigit (b.toNat % 16)]

def hex (d : Digest) : Text := d.toList.flatMap hexByte

section
variable (sha256 : Text → Digest)

def sha256Hex (t : Text) : Text := hex (sha256 t)

/-- `data` without its record of the chain. -/
def dropChain : Value → Value
  | .obj entries => .obj (eraseKey (utf8 "evidence_chain") entries)
  | v => v

/-- The part of an event that its hash covers. -/
def withoutChain : Value → Value
  | .obj entries => .obj (updateKey (utf8 "data") dropChain entries)
  | v => v

def evidenceEventHash (event : Value) : Text := sha256Hex sha256 (withoutChain event).toVec

/-- The text whose hash links an event to the chain before it. -/
def chainPayload (previousHash eventHash : Text) : Text := previousHash ++ newline :: eventHash

def evidenceChainHash (previousHash eventHash : Text) : Text :=
  sha256Hex sha256 (chainPayload previousHash eventHash)

def evidenceChainOf (event : Value) : Option Value :=
  (event.get (utf8 "data")).bind (Value.get (utf8 "evidence_chain"))

/-- A field of the record that an event carries; empty where there is none. -/
def evidenceChainField (event : Value) (field : String) : Text :=
  (((evidenceChainOf event).bind (Value.get (utf8 field))).bind Value.asStr).getD []

inductive EntryStatus where
  | unrecorded
  | verified
  | tamperDetected
  deriving DecidableEq

def evidenceIntegrityStatus (previousHash eventHash chainHash recordedPreviousHash
    recordedEventHash recordedChainHash : Text) : EntryStatus :=
  if isBlank recordedPreviousHash ∧ isBlank recordedEventHash ∧ isBlank recordedChainHash then
    .unrecorded
  else if recordedPreviousHash = previousHash ∧ recordedEventHash = eventHash ∧
      recordedChainHash = chainHash then .verified
  else .tamperDetected

structure EvidenceChainEntry where
  index : ℕ
  timestamp : Text
  event : Text
  previousHash : Text
  eventHash : Text
  chainHash : Text
  recordedPreviousHash : Text
  recordedEventHash : Text
  recordedChainHash : Text
  integrityStatus : EntryStatus
  deriving DecidableEq

inductive ChainStatus where
  | verified
  /-- Nothing is wrong, but not every event is recorded. -/
  | incomplete
  | tamperDetected
  deriving DecidableEq

structure EvidenceChainSummary where
  entryCount : ℕ
  recordedCount : ℕ
  verifiedCount : ℕ
  tamperDetectedCount : ℕ
  rootHash : Text
  integrityStatus : ChainStatus
  deriving DecidableEq

structure EvidenceChainProjection where
  summary : EvidenceChainSummary
  entries : List EvidenceChainEntry
  deriving DecidableEq

/-- The entry of one event behind the chain that ends in `previousHash`. -/
def chainEntry (index : ℕ) (record : EventRecord) (previousHash : Text) (event : Value) :
    EvidenceChainEntry :=
  let eventHash := evidenceEventHash sha256 event
  let chainHash := evidenceChainHash sha256 previousHash eventHash
  let recordedPreviousHash := evidenceChainField event "previous_hash"
  let recordedEventHash := evidenceChainField event "event_hash"
  let recordedChainHash := evidenceChainField event "chain_hash"
  { index := index
    timestamp := record.timestamp
    event := record.event
    previousHash := previousHash
    eventHash := eventHash
    chainHash := chainHash
    recordedPreviousHash := recordedPreviousHash
    recordedEventHash := recordedEventHash
    recordedChainHash := recordedChainHash
    integrityStatus := evidenceIntegrityStatus previousHash eventHash chainHash
      recordedPreviousHash recordedEventHash recordedChainHash }

/-- The entries of the lines that are not blank, and the hash they end in. -/
def buildEntries (reader : JsonReader) (records : List EventRecord) :
    ℕ → Text → List Text → Except LogError (List EvidenceChainEntry × Text)
  | _, previousHash, [] => .ok ([], previousHash)
  | index, previousHash, line :: rest =>
    match reader.parse (eventLine index line), records[index]? with
    | none, _ => .error (.parse (index + 1))
    | some _, none => .error (.untyped (index + 1))
    | some document, some record =>
      let entry := chainEntry sha256 index record previousHash document.normal
      (buildEntries reader records (index + 1) entry.chainHash rest).map fun (entries, root) =>
        (entry :: entries, root)

/-- Whether an event carries a record of the chain. -/
def EvidenceChainEntry.recorded (entry : EvidenceChainEntry) : Bool :=
  !isBlank entry.recordedPreviousHash || !isBlank entry.recordedEventHash ||
    !isBlank entry.recordedChainHash

def summarize (entries : List EvidenceChainEntry) (root : Text) : EvidenceChainSummary :=
  let recordedCount := entries.countP (·.recorded)
  let tamperDetectedCount := entries.countP (·.integrityStatus = .tamperDetected)
  { entryCount := entries.length
    recordedCount := recordedCount
    verifiedCount := entries.countP (·.integrityStatus = .verified)
    tamperDetectedCount := tamperDetectedCount
    rootHash := root
    integrityStatus :=
      if tamperDetectedCount > 0 then .tamperDetected
      else if recordedCount = entries.length ∧ entries ≠ [] then .verified
      else .incomplete }

def eventLines (content : Text) : List Text := (lines content).filter fun line => !isBlank line

def buildEvidenceChain (reader : JsonReader) (content : Text) (records : List EventRecord) :
    Except LogError EvidenceChainProjection :=
  (buildEntries sha256 reader records 0 [] (eventLines content)).map fun (entries, root) =>
    ⟨summarize entries root, entries⟩

/-- The record of the chain that an appended event gets. -/
def chainRecord (previousHash eventHash chainHash : Text) : Value :=
  .obj [(utf8 "chain_hash", .str chainHash), (utf8 "event_hash", .str eventHash),
    (utf8 "previous_hash", .str previousHash)]

def attachEvidenceChainToEvent (reader : JsonReader) (existing : Text) (event : Value) :
    Except LogError Value := do
  let records ← parseEventJsonl reader existing
  let chain ← buildEvidenceChain sha256 reader existing records
  let previousHash := chain.summary.rootHash
  let eventHash := evidenceEventHash sha256 event
  let chainHash := evidenceChainHash sha256 previousHash eventHash
  match event with
  | .obj entries =>
    match (entries.lookup (utf8 "data")).getD (.obj []) with
    | .obj data =>
      .ok (.obj (insertKey (utf8 "data") (.obj (insertKey (utf8 "evidence_chain")
        (chainRecord previousHash eventHash chainHash) data)) entries))
    | _ => .error .dataNotObject
  | _ => .error .notObject

end

theorem hexDigit_lt (n : ℕ) (h : n < 16) : 0x30 ≤ hexDigit n ∧ hexDigit n ≤ 0x66 := by
  interval_cases n <;> decide

theorem hexDigit_injective {m n : ℕ} (hm : m < 16) (hn : n < 16) (h : hexDigit m = hexDigit n) :
    m = n := by
  have : ∀ a b : Fin 16, hexDigit a = hexDigit b → a = b := by decide
  simpa using this ⟨m, hm⟩ ⟨n, hn⟩ h

theorem hexByte_injective : Function.Injective hexByte := by
  intro a b h
  obtain ⟨hhi, hlo, -⟩ : hexDigit (a.toNat / 16) = hexDigit (b.toNat / 16) ∧
      hexDigit (a.toNat % 16) = hexDigit (b.toNat % 16) ∧ True := by simpa [hexByte] using h
  have ha := a.toNat_lt
  have hb := b.toNat_lt
  have hdiv := hexDigit_injective (by omega) (by omega) hhi
  have hmod := hexDigit_injective (by omega) (by omega) hlo
  exact UInt8.toNat_inj.mp (by omega)

theorem flatMap_hexByte_injective {xs ys : List UInt8} (h : xs.flatMap hexByte = ys.flatMap hexByte) :
    xs = ys := by
  induction xs generalizing ys with
  | nil =>
    cases ys with
    | nil => rfl
    | cons y ys => simp [hexByte] at h
  | cons x xs ih =>
    cases ys with
    | nil => simp [hexByte] at h
    | cons y ys =>
      obtain ⟨hbyte, htail⟩ := List.append_inj h rfl
      rw [hexByte_injective hbyte, ih htail]

theorem hex_injective : Function.Injective hex := fun _ _ h =>
  Vector.toList_inj.mp (flatMap_hexByte_injective h)

theorem hexDigit_mem_hex {d : Digest} {c : UInt8} (h : c ∈ hex d) : 0x30 ≤ c ∧ c ≤ 0x66 := by
  obtain ⟨b, -, hc⟩ := List.mem_flatMap.mp h
  have hb := b.toNat_lt
  rcases List.mem_cons.mp hc with rfl | hc
  · exact hexDigit_lt _ (by omega)
  · rw [List.mem_singleton.mp hc]
    exact hexDigit_lt _ (by omega)

theorem exists_hex_eq_cons (d : Digest) : ∃ c t, hex d = c :: t ∧ 0x30 ≤ c ∧ c ≤ 0x66 := by
  have hlen : d.toList.length = 32 := by simp
  cases hd : d.toList with
  | nil => simp [hd] at hlen
  | cons b bs =>
    have hhex : hex d = hexDigit (b.toNat / 16) :: hexDigit (b.toNat % 16) :: bs.flatMap hexByte := by
      simp [hex, hd, hexByte]
    exact ⟨_, _, hhex, hexDigit_mem_hex (d := d) (by simp [hhex])⟩

theorem hex_ne_nil (d : Digest) : hex d ≠ [] := by
  obtain ⟨c, t, h, -⟩ := exists_hex_eq_cons d
  simp [h]

theorem newline_notMem_hex (d : Digest) : newline ∉ hex d := by
  intro h
  exact absurd (hexDigit_mem_hex h).1 (by decide)

theorem isBlank_hex (d : Digest) : isBlank (hex d) = false := by
  obtain ⟨c, t, h, hlo, hhi⟩ := exists_hex_eq_cons d
  have hlo : (0x30 : UInt8).toNat ≤ c.toNat := hlo
  have hhi : c.toNat ≤ (0x66 : UInt8).toNat := hhi
  rw [h]
  apply not_isBlank_of_head
  · have h1 : ¬ c ≤ 0x0d := fun h' => absurd (show c.toNat ≤ (0x0d : UInt8).toNat from h') (by
      change ¬ c.toNat ≤ 13
      change 48 ≤ c.toNat at hlo
      omega)
    have h2 : c ≠ 0x20 := by
      rintro rfl
      exact absurd hlo (by decide)
    simp [space1, h1, h2]
  · refine ⟨?_, ?_, ?_, ?_⟩ <;>
    · rintro rfl
      exact absurd hhi (by decide)

/-- The two parts of a payload can be told apart. -/
theorem chainPayload_injective {p p' e e' : Text} (hp : newline ∉ p) (hp' : newline ∉ p')
    (h : chainPayload p e = chainPayload p' e') : p = p' ∧ e = e' := by
  induction p generalizing p' with
  | nil =>
    cases p' with
    | nil => simpa [chainPayload] using h
    | cons c p' =>
      obtain ⟨rfl, -⟩ := List.cons.inj h
      exact absurd (List.mem_cons_self) hp'
  | cons c p ih =>
    cases p' with
    | nil =>
      obtain ⟨rfl, -⟩ := List.cons.inj h
      exact absurd (List.mem_cons_self) hp
    | cons c' p' =>
      obtain ⟨rfl, htail⟩ := List.cons.inj h
      obtain ⟨rfl, rfl⟩ := ih (fun hm => hp (List.mem_cons_of_mem _ hm))
        (fun hm => hp' (List.mem_cons_of_mem _ hm)) htail
      exact ⟨rfl, rfl⟩

end Winsmux.Ledger
