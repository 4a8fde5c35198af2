import Mathlib
import Winsmux.Ledger.EvidenceAppend

/-!
# What the evidence chain reveals

Where the hash has no collision among the texts that two logs hash, equal roots mean
equal events, and a verified log cannot be reworked into another verified log in
which its last event keeps its record.
-/
namespace Winsmux.Ledger
open Json

/-- The events of the lines, as values. -/
def eventValuesFrom (reader : JsonReader) : ℕ → List Text → Option (List Value)
  | _, [] => some []
  | index, line :: rest => do
    let document ← reader.parse (eventLine index line)
    let events ← eventValuesFrom reader (index + 1) rest
    some (document.normal :: events)

def eventValues (reader : JsonReader) (content : Text) : Option (List Value) :=
  eventValuesFrom reader 0 (eventLines content)

section
variable (sha256 : Text → Digest)

/-- Every text that is hashed for a chain behind `previousHash`. -/
def hashedTexts : Text → List Value → List Text
  | _, [] => []
  | previousHash, event :: events =>
    let eventHash := evidenceEventHash sha256 event
    (withoutChain event).toVec :: chainPayload previousHash eventHash ::
      hashedTexts (evidenceChainHash sha256 previousHash eventHash) events

/-- No two of the texts have one hash. -/
def CollisionFree (texts : List Text) : Prop :=
  ∀ t ∈ texts, ∀ u ∈ texts, sha256 t = sha256 u → t = u

/-- The hash in which the chain of the events ends. -/
def chainRoot (events : List Value) : Text :=
  HashChain.root (evidenceChainHash sha256) [] (events.map (evidenceEventHash sha256))

/-- Each event carries the hashes of its place behind `previousHash`. -/
def VerifiedFrom : Text → List Value → Prop
  | _, [] => True
  | previousHash, event :: events =>
    let eventHash := evidenceEventHash sha256 event
    let chainHash := evidenceChainHash sha256 previousHash eventHash
    evidenceChainField event "previous_hash" = previousHash ∧
      evidenceChainField event "event_hash" = eventHash ∧
      evidenceChainField event "chain_hash" = chainHash ∧ VerifiedFrom chainHash events

end

/-- `new` is made out of `old`: `origin` says which of its events are events of `old`
that kept their record of the chain, whatever else became of them. The last event of
`old` is one of them, and some event up to it was edited, moved, left out or put in. -/
structure Reworked (old new : List Value) (origin : ℕ → Option ℕ) : Prop where
  kept : ∀ j i, origin j = some i → ∃ v w, old[i]? = some v ∧ new[j]? = some w ∧
    evidenceChainOf w = evidenceChainOf v
  last : ∃ j, origin j = some (old.length - 1)
  changed : (∃ j i, origin j = some i ∧ j ≠ i) ∨
    (new.take old.length).map withoutChain ≠ old.map withoutChain

section
variable {old new : List Value}

/-- Events are edited outside their records. -/
theorem reworked_of_edit (hne : old ≠ [])
    (hrecords : new.map evidenceChainOf = old.map evidenceChainOf)
    (hedit : new.map withoutChain ≠ old.map withoutChain) :
    Reworked old new fun j => if j < old.length then some j else none := by
  have hlen : new.length = old.length := by simpa using congrArg List.length hrecords
  refine ⟨fun j i h => ?_, ⟨old.length - 1, ?_⟩, .inr ?_⟩
  · split_ifs at h with hj
    obtain rfl : j = i := by simpa using h
    refine ⟨old[j], new[j], List.getElem?_eq_getElem hj, List.getElem?_eq_getElem (hlen ▸ hj), ?_⟩
    have := congrArg (·[j]?) hrecords
    simpa [hj, hlen] using this
  · have := List.length_pos_iff.mpr hne
    rw [if_pos (by omega)]
  · rwa [← hlen, List.take_length]

/-- Events before the last one are left out, or put in. -/
theorem reworked_of_length {xs ys : List Value} {v : Value} (hlen : xs.length ≠ ys.length) :
    Reworked (xs ++ [v]) (ys ++ [v]) fun j => if j = ys.length then some xs.length else none := by
  have horigin : ∀ j i, (if j = ys.length then some xs.length else none) = some i →
      j = ys.length ∧ i = xs.length := by
    intro j i h
    split_ifs at h with hj
    exact ⟨hj, by simpa using h.symm⟩
  refine ⟨fun j i h => ?_, ⟨ys.length, by simp⟩, .inl ⟨ys.length, xs.length, by simp, hlen.symm⟩⟩
  obtain ⟨rfl, rfl⟩ := horigin j i h
  exact ⟨v, v, by simp, by simp, rfl⟩

theorem reworked_of_delete {xs ys : List Value} {v : Value} (hsub : ys.Sublist xs) (hne : ys ≠ xs) :
    Reworked (xs ++ [v]) (ys ++ [v]) fun j => if j = ys.length then some xs.length else none :=
  reworked_of_length fun h => hne (hsub.eq_of_length h.symm)

theorem reworked_of_insert {xs ys : List Value} {v : Value} (hsub : xs.Sublist ys) (hne : xs ≠ ys) :
    Reworked (xs ++ [v]) (ys ++ [v]) fun j => if j = ys.length then some xs.length else none :=
  reworked_of_length fun h => hne (hsub.eq_of_length h)

/-- Events change their places. -/
theorem reworked_of_reorder (hne : old ≠ []) {σ : Equiv.Perm (Fin old.length)} (hσ : σ ≠ 1) :
    Reworked old (List.ofFn fun j => old.get (σ j)) fun j =>
      if h : j < old.length then some (σ ⟨j, h⟩) else none := by
  refine ⟨fun j i h => ?_, ?_, .inl ?_⟩
  · split_ifs at h with hj
    obtain rfl : (σ ⟨j, hj⟩ : ℕ) = i := by simpa using h
    exact ⟨old[(σ ⟨j, hj⟩ : ℕ)], old[(σ ⟨j, hj⟩ : ℕ)], by simp, by simp [hj], rfl⟩
  · have hpos := List.length_pos_iff.mpr hne
    refine ⟨σ.symm ⟨old.length - 1, by omega⟩, ?_⟩
    simp
  · obtain ⟨j, hj⟩ : ∃ j, σ j ≠ j := by
      by_contra hno
      push Not at hno
      exact hσ (Equiv.ext hno)
    refine ⟨j, σ j, by simp, fun h => hj (Fin.ext h.symm)⟩

end

section
variable {sha256 : Text → Digest} {reader : JsonReader}

/-- What `build_evidence_chain` accepts: the values of the lines, their root, and,
where its status is verified, their fields. -/
theorem buildEntries_values {records : List EventRecord} {index : ℕ} {previous root : Text}
    {ls : List Text} {entries : List EvidenceChainEntry} {events : List Value}
    (h : buildEntries sha256 reader records index previous ls = .ok (entries, root))
    (hev : eventValuesFrom reader index ls = some events) :
    root = HashChain.root (evidenceChainHash sha256) previous
        (events.map (evidenceEventHash sha256)) ∧
      entries.length = events.length ∧
      ((∀ e ∈ entries, e.integrityStatus = .verified) → VerifiedFrom sha256 previous events) := by
  induction ls generalizing index previous root entries events with
  | nil =>
    obtain ⟨rfl, rfl⟩ : [] = entries ∧ previous = root := by simpa [buildEntries] using h
    obtain rfl : [] = events := by simpa [eventValuesFrom] using hev
    exact ⟨rfl, rfl, fun _ => trivial⟩
  | cons line ls ih =>
    simp only [buildEntries] at h
    split at h
    · cases h
    · cases h
    · next document record hp hr =>
      simp only [eventValuesFrom, hp, bind, Option.bind] at hev
      cases hrest : eventValuesFrom reader (index + 1) ls with
      | none => simp [hrest] at hev
      | some rest =>
        obtain rfl : document.normal :: rest = events := by simpa [hrest] using hev
        cases hb : buildEntries sha256 reader records (index + 1)
            (chainEntry sha256 index record previous document.normal).chainHash ls with
        | error => simp [hb, Except.map] at h
        | ok p =>
          obtain ⟨es, root'⟩ := p
          obtain ⟨rfl, rfl⟩ : _ :: es = entries ∧ root' = root := by simpa [hb, Except.map] using h
          obtain ⟨hroot, hlen, hver⟩ := ih hb hrest
          refine ⟨hroot, by simp [hlen], fun hall => ?_⟩
          have hhead := hall _ List.mem_cons_self
          simp only [chainEntry, evidenceIntegrityStatus] at hhead
          split_ifs at hhead with h1 h2
          obtain ⟨hp, he, hc⟩ := h2
          exact ⟨hp, he, hc, hver fun e hmem => hall e (List.mem_cons_of_mem _ hmem)⟩

/-- A summary that says verified has only verified entries, and at least one. -/
theorem verified_of_summarize {es : List EvidenceChainEntry} {root : Text}
    (hstatus : ∀ e ∈ es, e.recorded → e.integrityStatus ≠ .unrecorded)
    (h : (summarize es root).integrityStatus = .verified) :
    es ≠ [] ∧ ∀ e ∈ es, e.integrityStatus = .verified := by
  simp only [summarize] at h
  split_ifs at h with h1 h2
  refine ⟨h2.2, fun e he => ?_⟩
  have htamper : e.integrityStatus ≠ .tamperDetected := by
    have := List.countP_eq_zero.mp (Nat.eq_zero_of_not_pos h1) e he
    simpa using this
  have hrec := hstatus e he (List.countP_eq_length.mp h2.1 e he)
  cases hs : e.integrityStatus <;> simp_all

theorem newline_notMem_links {previous : Text} {hashes : List Text} (h : newline ∉ previous) :
    ∀ p ∈ HashChain.links (evidenceChainHash sha256) previous hashes, newline ∉ p.1 := by
  induction hashes generalizing previous with
  | nil => simp [HashChain.links]
  | cons e es ih =>
    simp only [HashChain.links, List.mem_cons, forall_eq_or_imp]
    exact ⟨h, ih (newline_notMem_hex _)⟩

/-- The payloads of a chain are among its hashed texts. -/
theorem chainPayload_mem {previous : Text} {events : List Value} :
    ∀ p ∈ HashChain.links (evidenceChainHash sha256) previous
      (events.map (evidenceEventHash sha256)),
      chainPayload p.1 p.2 ∈ hashedTexts sha256 previous events := by
  induction events generalizing previous with
  | nil => simp [HashChain.links]
  | cons v vs ih =>
    simp only [List.map_cons, HashChain.links, hashedTexts, List.mem_cons]
    rintro p (rfl | hp)
    · exact .inr (.inl rfl)
    · exact .inr (.inr (ih p hp))

theorem withoutChain_mem {previous : Text} {events : List Value} :
    ∀ v ∈ events, (withoutChain v).toVec ∈ hashedTexts sha256 previous events := by
  induction events generalizing previous with
  | nil => simp
  | cons w ws ih =>
    simp only [hashedTexts, List.mem_cons]
    rintro v (rfl | hv)
    · exact .inl rfl
    · exact .inr (.inr (ih v hv))

theorem hashedTexts_append {previous : Text} {xs ys : List Value} :
    hashedTexts sha256 previous (xs ++ ys) = hashedTexts sha256 previous xs ++
      hashedTexts sha256 (HashChain.root (evidenceChainHash sha256) previous
        (xs.map (evidenceEventHash sha256))) ys := by
  induction xs generalizing previous with
  | nil => rfl
  | cons x xs ih => simp [hashedTexts, ih]

theorem hashedTexts_take_subset (events : List Value) (n : ℕ) :
    hashedTexts sha256 [] (events.take n) ⊆ hashedTexts sha256 [] events := by
  conv_rhs => rw [← List.take_append_drop n events, hashedTexts_append]
  exact List.subset_append_left _ _

theorem CollisionFree.mono {ts us : List Text} (h : CollisionFree sha256 us) (hs : ts ⊆ us) :
    CollisionFree sha256 ts := fun t ht u hu => h t (hs ht) u (hs hu)

/-- One hash for each event: the events are the same outside their records. -/
theorem withoutChain_of_hashes {xs ys : List Value} {ts : List Text}
    (hcollision : CollisionFree sha256 ts)
    (hts : ∀ v ∈ xs ++ ys, (withoutChain v).toVec ∈ ts)
    (hexact : ∀ v ∈ xs ++ ys, reader.parse (withoutChain v).toVec = some (withoutChain v))
    (h : xs.map (evidenceEventHash sha256) = ys.map (evidenceEventHash sha256)) :
    xs.map withoutChain = ys.map withoutChain := by
  induction xs generalizing ys with
  | nil =>
    cases ys with
    | nil => rfl
    | cons y ys => simp at h
  | cons x xs ih =>
    cases ys with
    | nil => simp at h
    | cons y ys =>
      obtain ⟨hhead, htail⟩ := List.cons.inj h
      have htext : (withoutChain x).toVec = (withoutChain y).toVec :=
        hcollision _ (hts x (by simp)) _ (hts y (by simp)) (hex_injective hhead)
      have hx := hexact x (by simp)
      rw [htext, hexact y (by simp)] at hx
      have hmem : ∀ v ∈ xs ++ ys, v ∈ x :: xs ++ y :: ys := by
        intro v hv
        rcases List.mem_append.mp hv with hv | hv <;> simp [hv]
      rw [List.map_cons, List.map_cons, Option.some.inj hx,
        ih (fun v hv => hts v (hmem v hv)) (fun v hv => hexact v (hmem v hv)) htail]

/-- The root of a log determines its events. -/
theorem withoutChain_of_chainRoot {xs ys : List Value}
    (hcollision : CollisionFree sha256 (hashedTexts sha256 [] xs ++ hashedTexts sha256 [] ys))
    (hexact : ∀ v ∈ xs ++ ys, reader.parse (withoutChain v).toVec = some (withoutChain v))
    (h : chainRoot sha256 xs = chainRoot sha256 ys) :
    xs.map withoutChain = ys.map withoutChain := by
  have hmem : ∀ p ∈ HashChain.links (evidenceChainHash sha256) []
        (xs.map (evidenceEventHash sha256)) ++ HashChain.links (evidenceChainHash sha256) []
        (ys.map (evidenceEventHash sha256)),
      chainPayload p.1 p.2 ∈ hashedTexts sha256 [] xs ++ hashedTexts sha256 [] ys ∧
        newline ∉ p.1 := by
    intro p hp
    rcases List.mem_append.mp hp with hp | hp
    · exact ⟨List.mem_append_left _ (chainPayload_mem p hp), newline_notMem_links (by simp) p hp⟩
    · exact ⟨List.mem_append_right _ (chainPayload_mem p hp), newline_notMem_links (by simp) p hp⟩
  refine withoutChain_of_hashes hcollision (fun v hv => ?_) hexact
    (HashChain.root_injective (fun p hp q hq heq => ?_) (fun p _ => hex_ne_nil _) h)
  · rcases List.mem_append.mp hv with hv | hv
    · exact List.mem_append_left _ (withoutChain_mem v hv)
    · exact List.mem_append_right _ (withoutChain_mem v hv)
  · have hpayload := hcollision _ (hmem p hp).1 _ (hmem q hq).1 (hex_injective heq)
    obtain ⟨h1, h2⟩ := chainPayload_injective (hmem p hp).2 (hmem q hq).2 hpayload
    exact Prod.ext h1 h2

/-- An event of a verified log carries the root of the log up to it. -/
theorem VerifiedFrom.chain_hash {previous : Text} {events : List Value}
    (h : VerifiedFrom sha256 previous events) {i : ℕ} {v : Value} (hi : events[i]? = some v) :
    evidenceChainField v "chain_hash" = HashChain.root (evidenceChainHash sha256) previous
      ((events.take (i + 1)).map (evidenceEventHash sha256)) := by
  induction events generalizing previous i with
  | nil => simp at hi
  | cons w ws ih =>
    obtain ⟨-, -, hchain, hrest⟩ := h
    cases i with
    | zero =>
      obtain rfl : w = v := by simpa using hi
      simpa using hchain
    | succ i => simpa using ih hrest (by simpa using hi)

/-- An event that keeps its record keeps its place, and the log up to it its events. -/
theorem VerifiedFrom.kept {xs ys : List Value} (hx : VerifiedFrom sha256 [] xs)
    (hy : VerifiedFrom sha256 [] ys)
    (hcollision : CollisionFree sha256 (hashedTexts sha256 [] xs ++ hashedTexts sha256 [] ys))
    (hexact : ∀ v ∈ xs ++ ys, reader.parse (withoutChain v).toVec = some (withoutChain v))
    {i j : ℕ} {v w : Value} (hi : xs[i]? = some v) (hj : ys[j]? = some w)
    (hrecord : evidenceChainOf w = evidenceChainOf v) :
    j = i ∧ (ys.take (j + 1)).map withoutChain = (xs.take (i + 1)).map withoutChain := by
  have hroot : chainRoot sha256 (ys.take (j + 1)) = chainRoot sha256 (xs.take (i + 1)) := by
    unfold chainRoot
    rw [← hx.chain_hash hi, ← hy.chain_hash hj, evidenceChainField, evidenceChainField, hrecord]
  have hsame : (ys.take (j + 1)).map withoutChain = (xs.take (i + 1)).map withoutChain := by
    have hread : ∀ u ∈ ys.take (j + 1) ++ xs.take (i + 1),
        reader.parse (withoutChain u).toVec = some (withoutChain u) := by
      intro u hu
      apply hexact u
      rcases List.mem_append.mp hu with hu | hu
      · exact List.mem_append_right _ (List.mem_of_mem_take hu)
      · exact List.mem_append_left _ (List.mem_of_mem_take hu)
    refine withoutChain_of_chainRoot (hcollision.mono ?_) hread hroot
    intro t ht
    rcases List.mem_append.mp ht with ht | ht
    · exact List.mem_append_right _ (hashedTexts_take_subset ys _ ht)
    · exact List.mem_append_left _ (hashedTexts_take_subset xs _ ht)
  have hilt : i < xs.length := (List.getElem?_eq_some_iff.mp hi).1
  have hjlt : j < ys.length := (List.getElem?_eq_some_iff.mp hj).1
  have hlen := congrArg List.length hsame
  simp only [List.length_map, List.length_take] at hlen
  exact ⟨by omega, hsame⟩

/-- Both logs cannot be verified when one is made out of the other. -/
theorem Reworked.not_verified {xs ys : List Value} {origin : ℕ → Option ℕ}
    (h : Reworked xs ys origin) (hx : VerifiedFrom sha256 [] xs)
    (hcollision : CollisionFree sha256 (hashedTexts sha256 [] xs ++ hashedTexts sha256 [] ys))
    (hexact : ∀ v ∈ xs ++ ys, reader.parse (withoutChain v).toVec = some (withoutChain v)) :
    ¬ VerifiedFrom sha256 [] ys := by
  intro hy
  rcases h.changed with ⟨j, i, horigin, hne⟩ | hchanged
  · obtain ⟨v, w, hi, hj, hrecord⟩ := h.kept j i horigin
    exact hne (hx.kept hy hcollision hexact hi hj hrecord).1
  · obtain ⟨j, hlast⟩ := h.last
    obtain ⟨v, w, hi, hj, hrecord⟩ := h.kept j _ hlast
    obtain ⟨rfl, hsame⟩ := hx.kept hy hcollision hexact hi hj hrecord
    have hpos : xs.length - 1 < xs.length := (List.getElem?_eq_some_iff.mp hi).1
    rw [show xs.length - 1 + 1 = xs.length by omega, List.take_length] at hsame
    exact hchanged hsame

theorem chainEntry_recorded {index : ℕ} {record : EventRecord} {previous : Text} {event : Value}
    (h : (chainEntry sha256 index record previous event).recorded) :
    (chainEntry sha256 index record previous event).integrityStatus ≠ .unrecorded := by
  simp only [EvidenceChainEntry.recorded, chainEntry, Bool.or_eq_true, Bool.not_eq_true'] at h
  simp only [chainEntry, evidenceIntegrityStatus]
  split_ifs with h1 h2
  · obtain ⟨hp, he, hc⟩ := h1
    simp_all
  · simp
  · simp

theorem buildEntries_recorded {records : List EventRecord} {index : ℕ} {previous root : Text}
    {ls : List Text} {entries : List EvidenceChainEntry}
    (h : buildEntries sha256 reader records index previous ls = .ok (entries, root)) :
    ∀ e ∈ entries, e.recorded → e.integrityStatus ≠ .unrecorded := by
  induction ls generalizing index previous root entries with
  | nil =>
    obtain ⟨rfl, -⟩ : [] = entries ∧ previous = root := by simpa [buildEntries] using h
    simp
  | cons line ls ih =>
    simp only [buildEntries] at h
    split at h
    · cases h
    · cases h
    · next document record hp hr =>
      cases hb : buildEntries sha256 reader records (index + 1)
          (chainEntry sha256 index record previous document.normal).chainHash ls with
      | error => simp [hb, Except.map] at h
      | ok p =>
        obtain ⟨rest, root'⟩ := p
        obtain ⟨rfl, -⟩ : _ :: rest = entries ∧ root' = root := by simpa [hb, Except.map] using h
        intro e he
        rcases List.mem_cons.mp he with rfl | he
        · exact chainEntry_recorded
        · exact ih hb e he

/-- What an accepted log says about its events. -/
theorem buildEvidenceChain_values {content : Text} {records : List EventRecord}
    {chain : EvidenceChainProjection} {events : List Value}
    (h : buildEvidenceChain sha256 reader content records = .ok chain)
    (hev : eventValues reader content = some events) :
    chain.summary.rootHash = chainRoot sha256 events ∧
      (chain.summary.integrityStatus = .verified → VerifiedFrom sha256 [] events) := by
  unfold buildEvidenceChain at h
  cases hb : buildEntries sha256 reader records 0 [] (eventLines content) with
  | error => simp [hb, Except.map] at h
  | ok p =>
    obtain ⟨entries, root⟩ := p
    obtain rfl : (⟨summarize entries root, entries⟩ : EvidenceChainProjection) = chain := by
      simpa [hb, Except.map] using h
    obtain ⟨hroot, -, hver⟩ := buildEntries_values hb hev
    exact ⟨hroot, fun hs => hver (verified_of_summarize (buildEntries_recorded hb) hs).2⟩

end

/-- The root of an accepted log determines its events, and a verified log that is
reworked is not verified. -/
theorem evidence_chain_reveals (sha256 : Text → Digest) (reader : JsonReader)
    (content content' : Text) (records records' : List EventRecord)
    (chain chain' : EvidenceChainProjection) (events events' : List Value)
    (hbuild : buildEvidenceChain sha256 reader content records = .ok chain)
    (hbuild' : buildEvidenceChain sha256 reader content' records' = .ok chain')
    (hevents : eventValues reader content = some events)
    (hevents' : eventValues reader content' = some events')
    (hcollision : CollisionFree sha256
      (hashedTexts sha256 [] events ++ hashedTexts sha256 [] events'))
    (hexact : ∀ v ∈ events ++ events',
      reader.parse (withoutChain v).toVec = some (withoutChain v)) :
    (chain.summary.rootHash = chain'.summary.rootHash →
      events.map withoutChain = events'.map withoutChain) ∧
    (chain.summary.integrityStatus = .verified →
      ∀ origin, Reworked events events' origin → chain'.summary.integrityStatus ≠ .verified) := by
  obtain ⟨hroot, hver⟩ := buildEvidenceChain_values hbuild hevents
  obtain ⟨hroot', hver'⟩ := buildEvidenceChain_values hbuild' hevents'
  constructor
  · intro h
    rw [hroot, hroot'] at h
    exact withoutChain_of_chainRoot hcollision hexact h
  · intro hs origin hrework hs'
    exact hrework.not_verified (hver hs) hcollision hexact (hver' hs')

def firstEvent : Value := attachedEvent sampleDigest [] bareEventData []

/-- The first event with another name and the same record. -/
def editedEvent : Value :=
  withRecord editedData [] (chainRecord [] (evidenceEventHash sampleDigest (.obj bareEventData))
    (evidenceChainHash sampleDigest [] (evidenceEventHash sampleDigest (.obj bareEventData))))

def runReader : JsonReader :=
  readerOf [firstEvent, editedEvent, withoutChain firstEvent, withoutChain editedEvent]

theorem editedData_canonical : (Value.obj editedData).Canonical := by
  have h : rank (utf8 "event") < rank (utf8 "timestamp") := by decide
  have h' : rank (utf8 "data") < rank (utf8 "event") := by decide
  exact canonical_obj_str (by simp [editedData, Sorted, h, h', h'.trans h]) (by simp [editedData])

theorem firstEvent_canonical : firstEvent.Canonical :=
  attachedEvent_canonical bareEventData_canonical rfl

theorem editedEvent_canonical : editedEvent.Canonical :=
  Canonical.withRecord editedData_canonical (.obj (by simp [Sorted]) (by simp))
    (chainRecord_canonical _ _ _)

theorem runReader_parse {v : Value}
    (hv : v ∈ [firstEvent, editedEvent, withoutChain firstEvent, withoutChain editedEvent]) :
    runReader.parse v.toVec = some v := by
  refine readerOf_parse (by decide +kernel) hv ?_
  have hall : ∀ t ∈ [firstEvent, editedEvent, withoutChain firstEvent,
      withoutChain editedEvent].map Value.toVec, t.getLast? ≠ some carriageReturn := by
    decide +kernel
  exact hall _ (List.mem_map_of_mem hv)

/-- The log of one event. -/
theorem build_single {v : Value} {es : List (Text × Value)} (hv : v = .obj es) (h : v.Canonical)
    (typed : EventRecord) (hread : runReader.parse v.toVec = some v) :
    buildEvidenceChain sampleDigest runReader (appendLine [] v.toVec) [typed] =
        .ok ⟨summarize [chainEntry sampleDigest 0 typed [] v] (chainEntry sampleDigest 0 typed [] v).chainHash,
          [chainEntry sampleDigest 0 typed [] v]⟩ ∧
      eventValues runReader (appendLine [] v.toVec) = some [v] := by
  obtain ⟨hline, hcr, hblank, heventLine⟩ := line_of_canonical (hv ▸ h)
  rw [← hv] at hline hcr hblank heventLine
  constructor
  · have hempty : buildEvidenceChain sampleDigest runReader [] [] = .ok emptyChain := rfl
    exact build_appended rfl hempty hline hcr hblank heventLine hread h.normal typed
  · have hlines : eventLines (appendLine [] v.toVec) = [v.toVec] := by
      rw [eventLines, lines_appendLine [] hline hcr]
      simp [endLine, lines, segments, hblank]
    simp [eventValues, hlines, eventValuesFrom, heventLine, hread, h.normal]

theorem evidence_chain_reveals_edit :
    let typed := bareRecord .null
    let chain := summarize [chainEntry sampleDigest 0 typed [] firstEvent]
      (chainEntry sampleDigest 0 typed [] firstEvent).chainHash
    let chain' := summarize [chainEntry sampleDigest 0 typed [] editedEvent]
      (chainEntry sampleDigest 0 typed [] editedEvent).chainHash
    (chain.rootHash = chain'.rootHash →
        [firstEvent].map withoutChain = [editedEvent].map withoutChain) ∧
      (chain.integrityStatus = .verified →
        ∀ origin, Reworked [firstEvent] [editedEvent] origin → chain'.integrityStatus ≠ .verified) := by
  obtain ⟨hbuild, hevents⟩ := build_single (v := firstEvent) rfl firstEvent_canonical
    (bareRecord .null) (runReader_parse (by simp))
  obtain ⟨hbuild', hevents'⟩ := build_single (v := editedEvent) rfl editedEvent_canonical
    (bareRecord .null) (runReader_parse (by simp))
  refine evidence_chain_reveals sampleDigest runReader _ _ _ _ _ _ _ _ hbuild hbuild' hevents hevents'
    ?_ ?_
  · unfold CollisionFree
    decide +kernel
  · intro v hv
    apply runReader_parse
    rcases List.mem_append.mp hv with hv | hv <;> simp [List.mem_singleton.mp hv]

end Winsmux.Ledger
