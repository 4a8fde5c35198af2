import Winsmux.Control.Filter
import Winsmux.Control.Output

/-!
# Output reaches a client as it was written

A line of output can be read back, and the lines for a pane hold, in order, the pieces that
the drains took of what the pane's process wrote. Each piece is decoded by itself, so they
hold the same bytes exactly where each piece is text by itself.
-/
namespace Winsmux.Control
open Json Transition Utf8

/-- The three digits of a byte. -/
theorem octal_value (c : UInt8) :
    (0x30 + c / 64 - 0x30) * 64 + (0x30 + c / 8 % 8 - 0x30) * 8 + (0x30 + c % 8 - 0x30) = c := by
  have hall : ∀ n : Fin 256, (0x30 + UInt8.ofNat n / 64 - 0x30) * 64 + (0x30 + UInt8.ofNat n / 8 % 8 - 0x30) * 8 +
      (0x30 + UInt8.ofNat n % 8 - 0x30) = UInt8.ofNat n := by decide +kernel
  have hc := hall ⟨c.toNat, c.toNat_lt⟩
  rwa [UInt8.ofNat_toNat] at hc

theorem unescapeOutput_byte (c : UInt8) (t : Text) :
    unescapeOutput (escapeOutputByte c ++ t) = c :: unescapeOutput t := by
  unfold escapeOutputByte
  split_ifs with hslash hprint htab
  · subst hslash
    rfl
  · rw [List.singleton_append, unescapeOutput.eq_def]
    exact if_pos hslash
  · rw [List.singleton_append, unescapeOutput.eq_def]
    exact if_pos hslash
  · exact congrArg (· :: unescapeOutput t) (octal_value c)

theorem unescapeOutput_escapeOutput (data : Text) : unescapeOutput (escapeOutput data) = data := by
  induction data with
  | nil => rfl
  | cons c data ih =>
    rw [escapeOutput, List.flatMap_cons, unescapeOutput_byte]
    exact congrArg (c :: ·) ih

theorem escapeOutput_injective : Function.Injective escapeOutput :=
  Function.LeftInverse.injective unescapeOutput_escapeOutput

def lineEnd (c : UInt8) : Bool := c = 0x0a || c = 0x0d

theorem noLineEnd_of_any {t : Text} (h : t.any lineEnd = false) : ∀ c ∈ t, lineEnd c = false :=
  fun c hc => Bool.eq_false_of_not_eq_true (List.any_eq_false.1 h c hc)

theorem noLineEnd_escapeOutput (data : Text) : ∀ c ∈ escapeOutput data, lineEnd c = false := by
  have hall : ∀ n : Fin 256, (escapeOutputByte (UInt8.ofNat n)).any lineEnd = false := by decide +kernel
  intro c hc
  obtain ⟨b, -, hb⟩ := List.mem_flatMap.1 hc
  have hbyte := hall ⟨b.toNat, b.toNat_lt⟩
  rw [UInt8.ofNat_toNat] at hbyte
  exact noLineEnd_of_any hbyte c hb

theorem noLineEnd_decimal (n : ℕ) : ∀ c ∈ decimal n, lineEnd c = false := by
  intro c hc
  have hdigit := isDigit_of_mem_decimal hc
  by_contra hend
  rw [Bool.not_eq_false, lineEnd, Bool.or_eq_true, decide_eq_true_eq, decide_eq_true_eq] at hend
  obtain rfl | rfl := hend
  · contradiction
  · contradiction

/-- Output is one line. -/
theorem noLineEnd_formatNotification {paneId : ℕ} {n : ControlNotification} (h : (n.dataFor paneId).isSome) :
    ∀ c ∈ formatNotification n, lineEnd c = false := by
  have hsep : lineEnd 0x20 = false := by decide
  cases n with
  | output id data =>
    simp only [formatNotification, List.forall_mem_append, List.forall_mem_cons]
    exact ⟨noLineEnd_of_any (by decide), noLineEnd_decimal _, hsep, noLineEnd_escapeOutput _⟩
  | extendedOutput id age data =>
    simp only [formatNotification, List.forall_mem_append, List.forall_mem_cons]
    exact ⟨noLineEnd_of_any (by decide), noLineEnd_decimal _, hsep,
      ⟨noLineEnd_decimal _, noLineEnd_of_any (by decide)⟩, noLineEnd_escapeOutput _⟩
  | pause => contradiction
  | continue_ => contradiction
  | other => contradiction

theorem decimal_injective : Function.Injective decimal :=
  Function.LeftInverse.injective digitsValue_decimal

/-- A number up to a blank. -/
theorem decimal_append_inj {m n : ℕ} {s t : Text} (h : decimal m ++ 0x20 :: s = decimal n ++ 0x20 :: t) :
    m = n ∧ s = t := by
  have hfields := congrArg splitFields h
  rw [splitFields_append (noSpace_decimal m), splitFields_append (noSpace_decimal n)] at hfields
  have hmn : m = n := decimal_injective (Prod.ext_iff.1 hfields).1
  subst hmn
  exact ⟨rfl, (List.cons.inj (List.append_cancel_left h)).2⟩

/-- The line of an output says all of it. -/
theorem formatNotification_inj {p q : ℕ} {n n' : ControlNotification} (hn : (n.dataFor p).isSome)
    (hn' : (n'.dataFor q).isSome) (h : formatNotification n = formatNotification n') : n = n' := by
  have hmarker (s t : Text) : utf8 "%output %" ++ s ≠ utf8 "%extended-output %" ++ t := by
    intro he
    have htake := congrArg (List.take 2) he
    rw [List.take_append_of_le_length (by decide), List.take_append_of_le_length (by decide)] at htake
    exact absurd htake (by decide)
  have hcolon : utf8 " : " = [0x20, 0x3a, 0x20] := by decide
  cases n with
  | output id data =>
    cases n' with
    | output id' data' =>
      obtain ⟨rfl, hdata⟩ := decimal_append_inj (List.append_cancel_left h)
      rw [escapeOutput_injective hdata]
    | extendedOutput => exact absurd h (hmarker _ _)
    | pause => contradiction
    | continue_ => contradiction
    | other => contradiction
  | extendedOutput id age data =>
    cases n' with
    | output => exact absurd h.symm (hmarker _ _)
    | extendedOutput id' age' data' =>
      obtain ⟨rfl, hrest⟩ := decimal_append_inj (List.append_cancel_left h)
      rw [hcolon, List.append_assoc, List.append_assoc] at hrest
      obtain ⟨rfl, hdata⟩ := decimal_append_inj hrest
      have hdata := @List.append_cancel_left _ [0x3a, 0x20] _ _ hdata
      rw [escapeOutput_injective hdata]
    | pause => contradiction
    | continue_ => contradiction
    | other => contradiction
  | pause => contradiction
  | continue_ => contradiction
  | other => contradiction

namespace ControlClient
variable {paneId : ℕ} {k : ControlClient}

/-- The outputs of a pane that were sent to a client. -/
def sent (paneId : ℕ) (k : ControlClient) : List Text := (k.lines ++ k.notificationTx).filterMap (·.dataFor paneId)

/-- What a client can take of a pane. -/
def Open (paneId : ℕ) (k : ControlClient) : Prop :=
  k.notificationTx.length < channelBound ∧ paneId ∉ k.pausedPanes ∧ paneId ∉ k.outputPausedPanes

theorem sent_trySend {n : ControlNotification} (h : (k.trySend n).notificationTx.length < channelBound) :
    (k.trySend n).sent paneId = k.sent paneId ++ (n.dataFor paneId).toList := by
  rw [trySend] at h ⊢
  split
  · cases hd : n.dataFor paneId <;> simp [sent, hd]
  · next hfull => simp [hfull] at h

theorem length_trySend (n : ControlNotification) :
    k.notificationTx.length ≤ (k.trySend n).notificationTx.length := by
  rw [trySend]
  split
  · simp
  · exact le_rfl

@[simp] theorem trySend_clientId (n : ControlNotification) : (k.trySend n).clientId = k.clientId := by
  rw [trySend]
  split <;> rfl

@[simp] theorem trySend_pausedPanes (n : ControlNotification) : (k.trySend n).pausedPanes = k.pausedPanes := by
  rw [trySend]
  split <;> rfl

@[simp] theorem trySend_outputPausedPanes (n : ControlNotification) :
    (k.trySend n).outputPausedPanes = k.outputPausedPanes := by
  rw [trySend]
  split <;> rfl

/-- An output is not sent, is sent, or pauses its pane. -/
theorem dispatch_cases (now id : ℕ) (data : Text) :
    (id ∈ k.pausedPanes ∨ id ∈ k.outputPausedPanes) ∧ k.dispatch now (id, data) = k ∨
    (∃ last n, (∀ p, n.dataFor p = if id = p then some data else none) ∧
      k.dispatch now (id, data) = { k with paneLastOutput := last }.trySend n) ∨
    ∃ last, k.dispatch now (id, data) =
      { k with paneLastOutput := last, outputPausedPanes := id :: k.outputPausedPanes }.trySend (.pause id) := by
  simp only [dispatch]
  split
  · next hskip => exact .inl ⟨hskip, rfl⟩
  · split
    · exact .inr (.inl ⟨k.paneLastOutput, .output id data, fun _ => rfl, rfl⟩)
    · split
      · exact .inr (.inr ⟨_, rfl⟩)
      · exact .inr (.inl ⟨_, .extendedOutput id _ data, fun _ => rfl, rfl⟩)

/-- Where the client is open after an output, it was before, and got it. -/
theorem sent_dispatch {now id : ℕ} {data : Text} (h : (k.dispatch now (id, data)).Open paneId) :
    k.Open paneId ∧
      (k.dispatch now (id, data)).sent paneId = k.sent paneId ++ (if id = paneId then [data] else []) := by
  obtain ⟨hskip, heq⟩ | ⟨last, n, hn, heq⟩ | ⟨last, heq⟩ := k.dispatch_cases now id data
  · rw [heq] at h ⊢
    have hne : id ≠ paneId := by
      rintro rfl
      exact hskip.elim h.2.1 h.2.2
    exact ⟨h, by simp [hne]⟩
  · rw [heq] at h ⊢
    obtain ⟨hroom, hpaused, hout⟩ := h
    rw [trySend_pausedPanes] at hpaused
    rw [trySend_outputPausedPanes] at hout
    have hlt := (length_trySend _).trans_lt hroom
    refine ⟨⟨hlt, hpaused, hout⟩, ?_⟩
    rw [sent_trySend hroom, hn]
    split <;> rfl
  · rw [heq] at h ⊢
    obtain ⟨hroom, hpaused, hout⟩ := h
    rw [trySend_pausedPanes] at hpaused
    rw [trySend_outputPausedPanes, List.mem_cons, not_or] at hout
    have hlt := (length_trySend _).trans_lt hroom
    refine ⟨⟨hlt, hpaused, hout.2⟩, ?_⟩
    rw [sent_trySend hroom, if_neg (Ne.symm hout.1)]
    rfl

theorem dispatch_clientId (now : ℕ) (output : ℕ × Text) : (k.dispatch now output).clientId = k.clientId := by
  obtain ⟨-, heq⟩ | ⟨last, n, -, heq⟩ | ⟨last, heq⟩ := k.dispatch_cases now output.1 output.2
  · exact congrArg ControlClient.clientId heq
  · exact (congrArg ControlClient.clientId heq).trans (trySend_clientId _)
  · exact (congrArg ControlClient.clientId heq).trans (trySend_clientId _)

theorem sent_dispatchAll {now : ℕ} {outputs : List (ℕ × Text)} (h : (outputs.foldl (·.dispatch now ·) k).Open paneId) :
    k.Open paneId ∧ (outputs.foldl (·.dispatch now ·) k).sent paneId =
      k.sent paneId ++ (outputs.filter (·.1 = paneId)).map Prod.snd := by
  induction outputs generalizing k with
  | nil => exact ⟨h, by simp⟩
  | cons output outputs ih =>
    obtain ⟨hopen, hsent⟩ := ih h
    obtain ⟨hk, hone⟩ := sent_dispatch hopen
    refine ⟨hk, ?_⟩
    rw [List.foldl_cons, hsent, hone, List.filter_cons]
    by_cases hid : output.1 = paneId <;> simp [hid]

theorem dispatchAll_clientId (now : ℕ) (outputs : List (ℕ × Text)) :
    (outputs.foldl (·.dispatch now ·) k).clientId = k.clientId := by
  induction outputs generalizing k with
  | nil => rfl
  | cons output outputs ih => rw [List.foldl_cons, ih, dispatch_clientId]

theorem sent_deliver : k.deliver.sent paneId = k.sent paneId := by
  rw [deliver]
  split
  · rfl
  · next n rest h => simp [sent, h]

theorem sent_setPauseAfter (secs : Option ℕ) : (k.setPauseAfter secs).sent paneId = k.sent paneId := by
  rw [setPauseAfter]
  split <;> rfl

theorem sent_continuePane {id : ℕ} (h : (k.continuePane id).notificationTx.length < channelBound) :
    (k.continuePane id).sent paneId = k.sent paneId := by
  rw [continuePane] at h ⊢
  split
  · next hmem =>
    rw [if_pos hmem] at h
    rw [sent_trySend h]
    exact List.append_nil _
  · rfl

end ControlClient

namespace AppState
variable {app : AppState} {clientId paneId : ℕ}

theorem client_map {f : ControlClient → ControlClient} (hf : ∀ k, (f k).clientId = k.clientId)
    (ks : List ControlClient) :
    (ks.map f).find? (·.clientId = clientId) = (ks.find? (·.clientId = clientId)).map f := by
  rw [List.find?_map]
  congr 2
  funext k
  simp [hf]

theorem pane_map {f : Pane → Pane} (hf : ∀ q, (f q).id = q.id) (qs : List Pane) :
    (qs.map f).find? (·.id = paneId) = (qs.find? (·.id = paneId)).map f := by
  rw [List.find?_map]
  congr 2
  funext q
  simp [hf]

theorem client_updateClient {f : ControlClient → ControlClient} (hf : ∀ k, (f k).clientId = k.clientId) (id : ℕ) :
    (app.updateClient id f).client clientId =
      (app.client clientId).map fun k => if k.clientId = id then f k else k := by
  refine client_map (fun k => ?_) _
  split
  · exact hf k
  · rfl

theorem calm_iff : app.calm clientId paneId ↔ (app.ring paneId).length < maxRing ∧
    ∃ k, app.client clientId = some k ∧ k.Open paneId := by
  rw [calm, Bool.and_eq_true, decide_eq_true_eq, Option.any_eq_true]
  simp [ControlClient.Open, and_assoc]

/-- With ids that differ, the panes with an id are the one that is found. -/
theorem filter_panes {qs : List Pane} (hnodup : (qs.map Pane.id).Nodup) :
    qs.filter (·.id = paneId) = (qs.find? (·.id = paneId)).toList := by
  induction qs with
  | nil => rfl
  | cons q qs ih =>
    obtain ⟨hq, hnodup⟩ := List.nodup_cons.1 hnodup
    by_cases hid : q.id = paneId
    · have hnone : qs.filter (·.id = paneId) = [] := by
        rw [List.filter_eq_nil_iff]
        intro r hr
        rw [decide_eq_true_eq]
        rintro rfl
        exact hq (hid ▸ List.mem_map_of_mem hr)
      simp [hid, hnone]
    · simp [hid, ih hnodup]

/-- The outputs of a drain that are about one pane. -/
theorem filter_paneOutputs (hnodup : (app.panes.map Pane.id).Nodup) :
    (app.paneOutputs.filter (·.1 = paneId)).map Prod.snd =
      if app.ring paneId = [] then [] else [fromUtf8Lossy (app.ring paneId)] := by
  have hswap : (app.panes.filter (·.outputRing ≠ [])).filter (·.id = paneId) =
      (app.pane paneId).toList.filter (·.outputRing ≠ []) := by
    rw [List.filter_comm, filter_panes hnodup, pane]
  have hone : app.paneOutputs.filter (·.1 = paneId) =
      ((app.panes.filter (·.outputRing ≠ [])).filter (·.id = paneId)).map fun q =>
        (q.id, fromUtf8Lossy q.outputRing) := by
    rw [paneOutputs, List.filter_map]
    rfl
  rw [hone, hswap, ring]
  cases app.pane paneId with
  | none => rfl
  | some q => by_cases hring : q.outputRing = [] <;> simp [hring]

theorem map_id_read (id : ℕ) (bytes : Text) : (app.read id bytes).panes.map Pane.id = app.panes.map Pane.id := by
  rw [read, List.map_map]
  refine List.map_congr_left fun q _ => ?_
  dsimp only [Function.comp_apply]
  split <;> rfl

theorem ring_read (hpane : (app.pane paneId).isSome) (id : ℕ) (bytes : Text) :
    (app.read id bytes).ring paneId =
      if id = paneId then appendToOutputRing (app.ring paneId) bytes else app.ring paneId := by
  obtain ⟨q, hq⟩ := Option.isSome_iff_exists.1 hpane
  have hid : q.id = paneId := by simpa using List.find?_some hq
  have hread : (app.read id bytes).pane paneId =
      some (if q.id = id then { q with outputRing := appendToOutputRing q.outputRing bytes } else q) := by
    rw [pane, read, pane_map fun r => ?_]
    · exact congrArg (Option.map _) hq
    · split <;> rfl
  rw [ring, ring, hread, hq, hid]
  by_cases h : id = paneId
  · simp [h]
  · simp [h, Ne.symm h]

end AppState

/-- Where a ring is not full after it took some bytes, it dropped none. -/
theorem appendToOutputRing_of_room {ring bytes : Text} (h : (appendToOutputRing ring bytes).length < maxRing) :
    appendToOutputRing ring bytes = ring ++ bytes := by
  simp only [appendToOutputRing] at h ⊢
  split
  · rfl
  · next hfit =>
    rw [if_neg hfit, List.length_append, List.length_drop] at h
    omega

/-- What holds in every run: the drains cut what was written, and the client got the pieces. -/
structure Pieced (clientId paneId : ℕ) (w : Watched) : Prop where
  nodup : (w.app.panes.map Pane.id).Nodup
  pane : (w.app.pane paneId).isSome
  cut : w.pieces.flatten ++ w.app.ring paneId = w.written
  sent : ∃ k, w.app.client clientId = some k ∧ k.sent paneId = w.pieces.map fromUtf8Lossy

section Runs
variable {panes : List Pane} {clientId paneId : ℕ}

theorem pieced_start (hnodup : (panes.map Pane.id).Nodup) (hpane : paneId ∈ panes.map Pane.id) :
    Pieced clientId paneId (startWatch panes clientId paneId) where
  nodup := hnodup
  pane := by
    obtain ⟨q, hq, hid⟩ := List.mem_map.1 hpane
    exact List.find?_isSome.2 ⟨q, hq, by simpa using hid⟩
  cut := rfl
  sent := ⟨.registered clientId, by simp [startWatch, AppState.client, ControlClient.registered], rfl⟩

/-- Only a client changes, and nothing is sent of the pane's output. -/
theorem Pieced.of_client {w : Watched} (h : Pieced clientId paneId w) {app : AppState}
    (hpanes : app.panes = w.app.panes)
    (hsent : ∀ k, w.app.client clientId = some k →
      ∃ k', app.client clientId = some k' ∧ k'.sent paneId = k.sent paneId) :
    Pieced clientId paneId { w with app } where
  nodup := hpanes ▸ h.nodup
  pane := by
    show (app.panes.find? _).isSome
    rw [hpanes]
    exact h.pane
  cut := by
    show w.pieces.flatten ++ ((app.panes.find? _).elim [] Pane.outputRing) = w.written
    rw [hpanes]
    exact h.cut
  sent := by
    obtain ⟨k, hk, hk'⟩ := h.sent
    obtain ⟨k', hclient, hsame⟩ := hsent k hk
    exact ⟨k', hclient, hsame.trans hk'⟩

/-- An update of one client, where the watched client stays open. -/
theorem Pieced.updateClient {w : Watched} (h : Pieced clientId paneId w) {id : ℕ} {f : ControlClient → ControlClient}
    (hf : ∀ k, (f k).clientId = k.clientId)
    (hsent : ∀ k, (f k).Open paneId → (f k).sent paneId = k.sent paneId)
    (hcalm : (w.app.updateClient id f).calm clientId paneId) :
    Pieced clientId paneId { w with app := w.app.updateClient id f } := by
  refine h.of_client rfl fun k hk => ?_
  have hclient := @AppState.client_updateClient w.app clientId _ hf id
  rw [hk, Option.map_some] at hclient
  obtain ⟨-, k', hk', hopen⟩ := AppState.calm_iff.1 hcalm
  rw [hclient] at hk'
  obtain rfl := Option.some.inj hk'
  refine ⟨_, hclient, ?_⟩
  split
  · next hid =>
    rw [if_pos hid] at hopen
    exact hsent k hopen
  · rfl

theorem Pieced.read {w : Watched} (h : Pieced clientId paneId w) {id : ℕ} {bytes : Text}
    (hcalm : (w.app.read id bytes).calm clientId paneId) :
    Pieced clientId paneId (w.next paneId (.read id bytes)) := by
  have hring := AppState.ring_read h.pane id bytes
  obtain ⟨hroom, -⟩ := AppState.calm_iff.1 hcalm
  refine ⟨?_, ?_, ?_, h.sent⟩
  · show ((w.app.read id bytes).panes.map Pane.id).Nodup
    rw [AppState.map_id_read]
    exact h.nodup
  · show ((w.app.read id bytes).pane paneId).isSome
    rw [AppState.pane, AppState.read, AppState.pane_map fun q => by split <;> rfl, Option.isSome_map]
    exact h.pane
  · show w.pieces.flatten ++ (w.app.read id bytes).ring paneId = if id = paneId then w.written ++ bytes else w.written
    rw [hring] at hroom ⊢
    split
    · next hid =>
      rw [if_pos hid] at hroom
      rw [appendToOutputRing_of_room hroom, ← List.append_assoc, h.cut]
    · exact h.cut

theorem Pieced.drain {w : Watched} (h : Pieced clientId paneId w) {now : ℕ}
    (hcalm : (w.app.drain now).calm clientId paneId) :
    Pieced clientId paneId (w.next paneId (.drain now)) := by
  obtain ⟨k, hk, hsent⟩ := h.sent
  have hne : w.app.controlClients.isEmpty = false := by
    rw [List.isEmpty_eq_false_iff]
    exact List.ne_nil_of_mem (List.mem_of_find?_eq_some hk)
  have hdrain : w.app.drain now = ⟨w.app.panes.map fun q => { q with outputRing := [] },
      w.app.controlClients.map fun k => w.app.paneOutputs.foldl (·.dispatch now ·) k⟩ := by
    rw [AppState.drain, hne]
    rfl
  have hpane : (w.app.drain now).pane paneId = (w.app.pane paneId).map fun q => { q with outputRing := [] } := by
    rw [hdrain]
    exact AppState.pane_map (f := fun q => { q with outputRing := [] }) (fun _ => rfl) _
  have hclient : (w.app.drain now).client clientId =
      some (w.app.paneOutputs.foldl (·.dispatch now ·) k) := by
    rw [hdrain]
    exact (AppState.client_map (fun k => ControlClient.dispatchAll_clientId now _) _).trans
      (congrArg (Option.map _) hk)
  obtain ⟨-, k', hk', hopen⟩ := AppState.calm_iff.1 hcalm
  rw [hclient] at hk'
  obtain rfl := Option.some.inj hk'
  obtain ⟨-, hall⟩ := ControlClient.sent_dispatchAll hopen
  rw [AppState.filter_paneOutputs h.nodup, hsent] at hall
  have hring : (w.app.drain now).ring paneId = [] := by
    rw [AppState.ring, hpane]
    cases w.app.pane paneId <;> rfl
  have hpieces : (w.next paneId (.drain now)).pieces =
      w.pieces ++ if w.app.ring paneId = [] then [] else [w.app.ring paneId] := by
    simp only [Watched.next, hne, Bool.false_eq_true, false_or]
    split <;> simp
  refine ⟨?_, ?_, ?_, _, hclient, ?_⟩
  · show ((w.app.drain now).panes.map Pane.id).Nodup
    rw [hdrain, List.map_map]
    exact h.nodup
  · show ((w.app.drain now).pane paneId).isSome
    rw [hpane, Option.isSome_map]
    exact h.pane
  · show (w.next paneId (.drain now)).pieces.flatten ++ (w.app.drain now).ring paneId = w.written
    rw [hpieces, hring, ← h.cut, List.append_nil]
    split
    · next hnil => simp [hnil]
    · simp
  · rw [hall, hpieces]
    split <;> simp

theorem pieced_step {w : Watched} (h : Pieced clientId paneId w) {e : Event}
    (hen : (watch panes clientId paneId).enabled w e) :
    Pieced clientId paneId ((watch panes clientId paneId).next w e) := by
  obtain ⟨hallows, hcalm⟩ := hen
  cases e with
  | read id bytes => exact h.read hcalm
  | drain now => exact h.drain hcalm
  | deliver id =>
    refine h.updateClient (fun k => ?_) (fun k _ => k.sent_deliver) hcalm
    rw [ControlClient.deliver]
    split <;> rfl
  | controlRegister id =>
    refine h.of_client rfl fun k hk => ⟨k, ?_, rfl⟩
    show (w.app.controlClients ++ [ControlClient.registered id]).find? _ = some k
    rw [List.find?_append]
    exact Option.or_eq_some_iff.2 (.inl hk)
  | controlDeregister id =>
    obtain ⟨-, k', hk', -⟩ := AppState.calm_iff.1 hcalm
    refine h.of_client rfl fun k hk => ⟨k, ?_, rfl⟩
    have hne : clientId ≠ id := by
      rintro rfl
      have hmem := List.mem_of_find?_eq_some hk'
      have hid : k'.clientId = clientId := by simpa using List.find?_some hk'
      simpa [hid] using (List.mem_filter.1 hmem).2
    refine Eq.trans ?_ hk
    show (w.app.controlClients.filter _).find? _ = _
    rw [List.find?_filter, AppState.client]
    congr 1
    funext r
    by_cases hr : r.clientId = clientId <;> simp [hr, hne]
  | controlSetPauseAfter id secs =>
    refine h.updateClient (fun k => ?_) (fun k _ => k.sent_setPauseAfter secs) hcalm
    rw [ControlClient.setPauseAfter]
    split <;> rfl
  | controlContinuePane id q =>
    refine h.updateClient (fun k => ?_) (fun k hopen => k.sent_continuePane hopen.1) hcalm
    rw [ControlClient.continuePane]
    split
    · exact ControlClient.trySend_clientId _
    · rfl
  | notify id line =>
    refine h.updateClient (fun k => ControlClient.trySend_clientId _) (fun k hopen => ?_) hcalm
    rw [ControlClient.sent_trySend hopen.1]
    exact List.append_nil _

theorem shown_of_pieced {w : Watched} (h : Pieced clientId paneId w) :
    w.app.shown clientId paneId = (w.pieces.map fromUtf8Lossy).flatten := by
  obtain ⟨k, hk, hsent⟩ := h.sent
  have hfields : (k.lines ++ k.notificationTx).filterMap (·.fieldFor paneId) = (k.sent paneId).map escapeOutput := by
    rw [ControlClient.sent, List.map_filterMap]
    rfl
  rw [AppState.shown, hk]
  dsimp only
  rw [hfields, hsent, List.flatMap_map]
  simp only [unescapeOutput_escapeOutput]
  rw [List.flatMap_id']

/-- The lines for a pane, with what is still in its ring, hold what its process wrote exactly
where each piece that a drain took is text; and each is one line that says all it holds. -/
theorem output_faithful (hnodup : (panes.map Pane.id).Nodup) (hpane : paneId ∈ panes.map Pane.id) :
    (∀ w, (watch panes clientId paneId).Reachable w →
      (w.app.shown clientId paneId ++ w.app.ring paneId = w.written ↔ ∀ piece ∈ w.pieces, IsText piece)) ∧
    (∀ n : ControlNotification, (n.dataFor paneId).isSome → ∀ c ∈ formatNotification n, lineEnd c = false) ∧
    ∀ n n' : ControlNotification, (n.dataFor paneId).isSome → (n'.dataFor paneId).isSome →
      n.dataFor paneId ≠ n'.dataFor paneId → formatNotification n ≠ formatNotification n' := by
  refine ⟨fun w hw => ?_, fun n hn => noLineEnd_formatNotification hn, fun n n' hn hn' hne he => ?_⟩
  · have hpieced : Pieced clientId paneId w :=
      hw.invariant (pieced_start hnodup hpane) fun w e _ h hen => pieced_step h hen
    rw [shown_of_pieced hpieced, ← hpieced.cut, ← flatten_fromUtf8Lossy_iff]
    exact ⟨List.append_cancel_right, fun h => by rw [h]⟩
  · exact hne (congrArg _ (formatNotification_inj hn hn' he))

end Runs

/-- A pane of one letter, written in two reads. -/
def onePane : List Pane := [⟨1, []⟩]

theorem output_faithful_letter :
    let w := (watch onePane 7 1).run (startWatch onePane 7 1)
      [.read 1 [0xc3], .read 1 [0xa9], .drain 0, .deliver 7]
    w.app.shown 7 1 ++ w.app.ring 1 = w.written ↔ ∀ piece ∈ w.pieces, IsText piece :=
  (@output_faithful onePane _ _ (by decide) (by decide)).1 _
    (System.Reachable.run .init _ (by decide))

/-- A drain between the two bytes of a letter loses it. -/
theorem drained_letter_is_replaced : ¬ ∀ w, (watch onePane 7 1).Reachable w → IsText w.written →
    w.app.shown 7 1 ++ w.app.ring 1 = w.written := by
  intro h
  have hv : (watch onePane 7 1).Valid (startWatch onePane 7 1)
      [.read 1 [0xc3], .drain 0, .read 1 [0xa9], .drain 0] := by decide
  have hw := h _ (System.Reachable.run (S := watch onePane 7 1) .init _ hv) (isText_of_isChar (by decide))
  exact absurd hw (by decide)

end Winsmux.Control
