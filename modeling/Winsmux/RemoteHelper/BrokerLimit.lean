import Winsmux.RemoteHelper.BrokerExit

/-!
# The peer's frame limit

Welcome, PtyStarted and PtyOutput are measured against the limit the frontend gave;
the other answers fit because no limit below the shortest Welcome is accepted,
unless a Reject repeats a text that came from outside.
-/
namespace Winsmux.RemoteHelper
open Json Transition Log

/-- A Reject with this detail is shorter than any Welcome. -/
def Brief (detail : Text) : Prop := escapedLength (truncateDetail detail) ≤ 100

instance (detail : Text) : Decidable (Brief detail) := inferInstanceAs (Decidable (_ ≤ _))

theorem rejectWith_length_le {code : RejectCode} {detail : Text} (h : Brief detail) :
    (encodePayload (rejectWith code detail)).length ≤ 156 := by
  have := code_width code
  unfold Brief at h
  rw [rejectWith, encodePayload_reject_length]
  omega

theorem validateMessage_brief {m : Message} {detail : Text} (h : validateMessage m = .error detail) :
    Brief detail := by
  have session {sessionId : Text} (h : sessionIdIsLegal sessionId = .error detail) : Brief detail := by
    unfold sessionIdIsLegal at h
    split_ifs at h
    obtain rfl := Except.error.inj h
    decide
  have pid {childPid : UInt32} (h : childPidIsLegal childPid = .error detail) : Brief detail := by
    unfold childPidIsLegal at h
    split_ifs at h
    obtain rfl := Except.error.inj h
    decide
  have size {cols rows : UInt16} (h : dimensionsAreLegal cols rows = .error detail) :
      Brief detail := by
    unfold dimensionsAreLegal at h
    split_ifs at h
    obtain rfl := Except.error.inj h
    decide
  have bytes {data : Text} (h : dataIsLegal data = .error detail) : Brief detail := by
    unfold dataIsLegal at h
    split at h
    · obtain rfl := Except.error.inj h
      decide
    · split_ifs at h
      obtain rfl := Except.error.inj h
      decide
  have resolution {executable : Text} {argv : List Text} {r : AgentResolution}
      (h : resolutionIsLegal executable argv r = .error detail) : Brief detail := by
    unfold resolutionIsLegal at h
    dsimp only at h
    split_ifs at h
    all_goals
      obtain rfl := Except.error.inj h
      decide
  -- Of two checks in sequence the first that fails gives the text.
  have either {first second : Except Text Unit} (h : (do first; second) = .error detail) :
      first = .error detail ∨ second = .error detail := by
    cases first with
    | error e => exact .inl h
    | ok _ => exact .inr h
  cases m with
  | ptyStart executable res argv cols rows =>
    simp only [validateMessage] at h
    split_ifs at h
    · obtain rfl := Except.error.inj h
      decide
    · obtain rfl := Except.error.inj h
      decide
    · cases res with
      | none => exact size h
      | some r => exact (either h).elim resolution size
  | ptyStarted sessionId childPid resolved =>
    rcases either h with h | h
    · exact session h
    rcases either h with h | h
    · exact pid h
    · split_ifs at h
      obtain rfl := Except.error.inj h
      decide
  | ptyAttached sessionId childPid => exact (either h).elim session pid
  | ptyStartAck sessionId => exact session h
  | ptyExited sessionId => exact session h
  | ptyAttach sessionId => exact session h
  | ptyStop sessionId => exact session h
  | ptyInput data => exact bytes h
  | ptyOutput data => exact bytes h
  | ptyResize cols rows => exact size h
  | reject code text =>
    simp only [validateMessage] at h
    split_ifs at h
    obtain rfl := Except.error.inj h
    decide
  | _ => cases h

/-- The type name that `decode_payload` repeats because it is none of the protocol's. -/
def unknownType (value : Option Value) : Option Text :=
  (value.bind fun v => (v.get (utf8 "type")).bind Value.asStr).filter fun kind =>
    (Kind.ofTag kind).isNone

def unknownTypeDetail (kind : Text) : Text := utf8 "unknown type '" ++ kind ++ utf8 "'"

theorem decodeValue_brief {value : Option Value} {m : Message} (h : decodeValue value = .error m) :
    (encodePayload m).length ≤ 156 ∨ ∃ kind, unknownType value = some kind ∧
      m = rejectWith .unknownType (unknownTypeDetail kind) := by
  have fixed {code : RejectCode} {detail : Text} (hb : Brief detail)
      (e : .error (rejectWith code detail) = (.error m : Except Message Message)) :
      (encodePayload m).length ≤ 156 := by
    obtain rfl := Except.error.inj e
    exact rejectWith_length_le hb
  unfold decodeValue at h
  split at h
  · exact .inl (fixed (by decide) h)
  rename_i v
  split at h
  · exact .inl (fixed (by decide) h)
  rename_i kind hkind
  split at h
  · rename_i hunknown
    refine .inr ⟨kind, ?_, (Except.error.inj h).symm⟩
    simp [unknownType, hkind, hunknown]
  split at h
  · exact .inl (fixed (by decide) h)
  split at h
  · rename_i detail hd
    exact .inl (fixed (validateMessage_brief hd) h)
  · cases h

theorem frameRejects_length_le {m : Message} (h : m ∈ frameRejects) :
    (encodePayload m).length ≤ 156 := by
  simp only [frameRejects, List.mem_cons, List.not_mem_nil, or_false] at h
  rcases h with rfl | rfl | rfl <;> exact rejectWith_length_le (by decide)

/-- No limit under the length of the shortest Welcome is answered with one. -/
theorem limit_of_welcome {hello : Message} (h : (negotiate hello).kind = .welcome) :
    157 ≤ (helloLimit hello).toNat ∧
      (encodePayload (negotiate hello)).length ≤ (helloLimit hello).toNat := by
  obtain ⟨version, client, nonce, capabilities, limit, rfl⟩ := negotiate_welcome h
  obtain ⟨e, -, hnonce, -, -, hlimit⟩ := negotiate_hello h
  have hlen := welcomeFor_length nonce capabilities
  have hescaped : nonce.length ≤ escapedLength nonce := length_le_escapedLength nonce
  have htexts : 2 ≤ (textArray (selectedCapabilities capabilities)).toVec.length := by
    simp [textArray, Value.toVec]
  rw [e]
  simp only [helloLimit, nonceHexLen] at *
  omega

namespace State

/-- The handler has read its first frame. -/
def Past (s : State) (f : ℕ) : Prop := (s.handler f).pc ≠ .absent ∧ (s.handler f).pc ≠ .greeting

variable {s : State} {l : Label} {f : ℕ}

theorem reapNext_past (rest : List Text) : reapNext rest ≠ .absent ∧ reapNext rest ≠ .greeting := by
  cases rest <;> exact ⟨nofun, nofun⟩

/-- After the handshake the limit stands. -/
theorem past_step (hI : Leases s) (hen : s.enabled l) (h : s.Past f) :
    (s.next l).Past f ∧ ((s.next l).handler f).peerFrameLimit = (s.handler f).peerFrameLimit := by
  by_cases ha : l.actor = some f
  · cases l with
    | greet g input =>
      obtain rfl : g = f := by simpa [Label.actor] using ha
      exact absurd hen.1 h.2
    | receive g input around =>
      obtain rfl : g = f := by simpa [Label.actor] using ha
      have hr := s.receive_received g around input hen.2 hI.alive
      generalize hs' : s.next (.receive g input around) = s'
      have hr : s.Received g s' := by rw [← hs']; exact hr
      cases hr with
      | answer pc controlled _ hq =>
        cases pc <;> simp_all [Past, setHandler, Quiet]
      | _ => simp [Past, setHandler, setPc, setSession]
    | _ =>
      simp only [Label.actor, Option.some.injEq, reduceCtorEq] at ha <;> subst ha
      all_goals
        simp only [next, sendReply, drawId, spawnAgent, insertSession, spawnWatcher, forget,
          spawnReader, checkStartable, claim, exitedFirst, sendStarted, finishStart, sendAttached,
          activateController, requestStop, stopGroup, completed, disconnectFrontend, Past]
        repeat' split
        all_goals
          simp only [setPc, setHandler, setGroup, setSession, setWatcher, setReader, openGate,
            write, Function.update_self, reject]
        all_goals
          refine ⟨?_, by trivial⟩
          first
          | exact h
          | exact reapNext_past _
          | exact ⟨by simp, by simp⟩
  · have hh := handler_frame hI hen ha fun _ => h.1
    rw [Past, hh]
    exact ⟨h, rfl⟩

/-- A controller's frontend has shaken hands. -/
theorem past_of_controller (hI : Leases s) {id : Text} {session : Session} {c : Controller}
    (hs : s.sessions id = some session) (hc : session.controller = some c) :
    s.Past c.frontendId := by
  rcases hI.may id session c hs hc with h | h
  · simp [Past, h]
  · unfold Handler.leased at h
    split at h <;> simp_all [Past]

end State

/-- The output on its way out of a reader. -/
def Reader.outgoing : Reader → Option Outgoing
  | .locking out | .holding out | .checked out _ => some out
  | _ => none

/-- A reader's output is an old one, or it is meant for the controller of the session. -/
theorem outgoing_source {s : State} {l : Label} (hI : Leases s) (hen : s.enabled l) {id : Text}
    {out : Outgoing} (hout : ((s.next l).reader id).outgoing = some out) :
    (s.reader id).outgoing = some out ∨ ∃ session c, s.sessions id = some session ∧
      session.controller = some c ∧ out.frontendId = c.frontendId ∧
      out.peerFrameLimit = c.peerFrameLimit := by
  by_cases hl : l.reads = some id
  · cases l <;> simp only [Label.reads, Option.some.injEq, reduceCtorEq] at hl <;> subst hl
    case spawnReader f st spawned =>
      cases spawned with
      | ok _ =>
        simp [State.next, State.spawnReader, State.setReader, State.setPc, Reader.outgoing] at hout
      | error error => exact .inl hout
    case lockWriter out' =>
      left
      simpa [State.next, State.lockWriter, State.setReader, hen.1, Reader.outgoing] using hout
    case recheck id out' =>
      have hr : s.reader id = .holding out' := hen
      left
      simpa [State.next, State.recheck, State.setReader, hr, Reader.outgoing] using hout
    case snapshot id chunk =>
      right
      revert hout
      simp only [State.next, State.snapshotController, State.setReader, Function.update_self]
      split
      · rename_i c hc
        intro hout
        obtain rfl := Option.some.inj hout
        obtain ⟨hc, -⟩ := Option.filter_eq_some_iff.mp hc
        obtain ⟨session, hs, hc⟩ := Option.bind_eq_some_iff.mp hc
        exact ⟨session, c, hs, hc, rfl, rfl⟩
      · simp [Reader.outgoing]
    all_goals simp [State.next, State.setReader, State.writeOutput, Reader.outgoing] at hout
  · rw [State.reader_frame hI hen hl] at hout
    exact .inl hout

/-- Every copy of a frontend's limit is its handler's, and nothing is on its way to a
frontend before its handshake. -/
structure Limits (s : State) : Prop where
  controller : ∀ id session c, s.sessions id = some session → session.controller = some c →
    c.peerFrameLimit = (s.handler c.frontendId).peerFrameLimit
  reader : ∀ id out, (s.reader id).outgoing = some out → s.Past out.frontendId ∧
    out.peerFrameLimit = (s.handler out.frontendId).peerFrameLimit
  note : ∀ id note, (s.watcher id).note = some note → s.Past note.frontendId
  stream : ∀ f, s.stream f ≠ [] → s.Past f

namespace Limits
variable {s : State} {l : Label}

theorem controller_step (h : Limits s) (hI : Leases s) (hen : s.enabled l) (id : Text)
    (session : Session) (c : Controller) (hs' : (s.next l).sessions id = some session)
    (hc' : session.controller = some c) :
    c.peerFrameLimit = ((s.next l).handler c.frontendId).peerFrameLimit := by
  -- A controller is an old one, or its handler has just made it.
  have before : s.Past c.frontendId ∧ c.peerFrameLimit = (s.handler c.frontendId).peerFrameLimit := by
    have was {session' : Session} {c' : Controller} (hs : s.sessions id = some session')
        (hc : session'.controller = some c') (hf : c'.frontendId = c.frontendId)
        (hn : c'.peerFrameLimit = c.peerFrameLimit) :
        s.Past c.frontendId ∧ c.peerFrameLimit = (s.handler c.frontendId).peerFrameLimit := by
      rw [← hf, ← hn]
      exact ⟨State.past_of_controller hI hs hc, h.controller id session' c' hs hc⟩
    have hch := hI.changed hen id
    rw [hs'] at hch
    generalize hnew : some session = new at hch
    cases hch with
    | same _ => exact was hnew.symm hc' rfl rfl
    | inserted f pid resolved session' _ _ hst =>
      obtain rfl := Option.some.inj hnew
      obtain rfl := Option.some.inj (hc'.symm.trans hst.controller)
      have hpc : (s.handler f).pc = .startInsert id pid resolved := hen
      exact ⟨by simp [State.Past, Handler.lease, hpc], rfl⟩
    | claimed f st session' hid hs hst =>
      obtain rfl := Option.some.inj hnew
      exact was hs hc' rfl rfl
    | announced f st session' hid hs hst =>
      obtain rfl := Option.some.inj hnew
      obtain rfl := Option.some.inj hc'
      exact was hs hst.controller rfl rfl
    | abandoned f st session' hid hs hst =>
      obtain rfl := Option.some.inj hnew
      obtain rfl := Option.some.inj hc'
      exact was hs hst.controller rfl rfl
    | confirmed f input around session' hs hw _ =>
      obtain rfl := Option.some.inj hnew
      exact was hs hc' rfl rfl
    | attached f input around session' hs hnone hpc =>
      obtain rfl := Option.some.inj hnew
      obtain rfl := Option.some.inj hc'
      have hpc : (s.handler f).pc = .idle := hen.1
      exact ⟨by simp [State.Past, Handler.lease, hpc], rfl⟩
    | released f input around session' _ _ _ =>
      obtain rfl := Option.some.inj hnew
      simp [Session.release] at hc'
    | stopped f input around session' c' hs hc hf =>
      obtain rfl := Option.some.inj hnew
      obtain rfl := Option.some.inj hc'
      exact was hs hc rfl rfl
    | activated f session' c' hs hc hf =>
      obtain rfl := Option.some.inj hnew
      obtain rfl := Option.some.inj hc'
      exact was hs hc rfl rfl
    | dropped f session' _ _ _ =>
      obtain rfl := Option.some.inj hnew
      simp [Session.release] at hc'
    | left _ _ _ _ _ _ => cases hnew
    | forgotten _ _ _ _ _ _ => cases hnew
    | lost _ _ _ _ => cases hnew
    | classified _ _ => cases hnew
  rw [(State.past_step hI hen before.1).2]
  exact before.2

theorem reader_step (h : Limits s) (hI : Leases s) (hen : s.enabled l) (id : Text) (out : Outgoing)
    (hout : ((s.next l).reader id).outgoing = some out) : (s.next l).Past out.frontendId ∧
      out.peerFrameLimit = ((s.next l).handler out.frontendId).peerFrameLimit := by
  have before : s.Past out.frontendId ∧
      out.peerFrameLimit = (s.handler out.frontendId).peerFrameLimit := by
    rcases outgoing_source hI hen hout with hout | ⟨session, c, hs, hc, hf, hlimit⟩
    · exact h.reader id out hout
    · rw [hf, hlimit]
      exact ⟨State.past_of_controller hI hs hc, h.controller id session c hs hc⟩
  obtain ⟨hpast, hlimit⟩ := State.past_step hI hen before.1
  exact ⟨hpast, before.2.trans hlimit.symm⟩

/-- What is written on a stream is written after the handshake. -/
theorem past_of_wrote (h : Limits s) {f : ℕ} {x : Sent} (hw : Wrote s f l x) : s.Past f := by
  cases hw with
  | reply m after hpc =>
    have hpc : (s.handler f).pc = .replying m after := hpc
    simp [State.Past, hpc]
  | started st hpc =>
    have hpc : (s.handler f).pc = .startSend st := hpc
    simp [State.Past, hpc]
  | attached id pid lease hpc =>
    have hpc : (s.handler f).pc = .attachSend id pid lease := hpc
    simp [State.Past, hpc]
  | exited id note result hwatch hf => exact hf ▸ h.note id note (by simp [hwatch, Watcher.note])
  | output id out hr hf _ => exact hf ▸ (h.reader id out (by simp [hr, Reader.outgoing])).1

theorem step (h : Limits s) (hI : Leases s) (hen : s.enabled l) : Limits (s.next l) where
  controller := h.controller_step hI hen
  reader := h.reader_step hI hen
  note id note hnote := by
    have before : s.Past note.frontendId := by
      rcases note_source hI hen hnote with hnote | ⟨session, c, hs, -, hc, rfl⟩
      · exact h.note id note hnote
      · exact State.past_of_controller hI hs hc
    exact (State.past_step hI hen before).1
  stream f hne := by
    have before : s.Past f := by
      rcases s.stream_step hI hen f with e | ⟨x, -, hw, -⟩
      · exact h.stream f (e ▸ hne)
      · exact h.past_of_wrote hw
    exact (State.past_step hI hen before).1

end Limits

theorem limits_of_reachable {s : State} (h : (broker.restrict FreshIds).Reachable s) :
    Limits s := by
  refine h.invariant (P := Limits) ?_ fun t l ht hL hen => hL.step (leases_of_reachable ht) hen.1
  exact
    { controller := fun id session c hs => by simp [broker, System.restrict, State.start] at hs
      reader := fun id out hout => by
        simp [broker, System.restrict, State.start, Reader.outgoing] at hout
      note := fun id note hn => by simp [broker, System.restrict, State.start, Watcher.note] at hn
      stream := fun f hne => absurd rfl hne }

/-- The text from outside that a step makes a Reject of, and for whom: an unknown
type name, or the error of a failed spawn or stop. -/
def Label.echo : Label → Option (ℕ × RejectCode × Text)
  | .receive f (.frame value) _ =>
    (unknownType value).map fun kind => (f, .unknownType, unknownTypeDetail kind)
  | .spawnAgent f _ _ (.error error) _ => some (f, .spawnFailed, error)
  | .spawnWatcher f _ (.error error) _ => some (f, .spawnFailed, error)
  | .spawnReader f _ (.error error) => some (f, .spawnFailed, error)
  | .completed f _ .stop (.error error) => some (f, .spawnFailed, error)
  | _ => none

/-- Cut to 128 bytes and escaped, the text still leaves room for the Reject around it. -/
def EchoFits (s : State) (l : Label) : Prop :=
  match l.echo with
  | some (f, code, text) => 39 + escapedLength code.name + escapedLength (truncateDetail text) ≤
      (s.handler f).peerFrameLimit.toNat
  | none => True

instance (s : State) (l : Label) : Decidable (EchoFits s l) := by
  unfold EchoFits
  split <;> infer_instance

/-- The broker in the runs where every repeated text fits. -/
def fitting : System State Label := broker.restrict fun s l => FreshIds s l ∧ EchoFits s l

instance (s : State) (l : Label) : Decidable (fitting.enabled s l) :=
  inferInstanceAs (Decidable (broker.enabled s l ∧ FreshIds s l ∧ EchoFits s l))

/-- The payload a handler is on its way to write is within the limit. -/
def Pc.Fits (limit : ℕ) : Pc → Prop
  | .replying m _ => (encodePayload m).length ≤ limit
  | .startInsert id pid resolved => (encodePayload (.ptyStarted id pid resolved)).length ≤ limit
  | .startWatcher st | .startReader st | .startCheck st | .startClaim st | .startSend st =>
    (encodePayload (State.startedFrame st).message).length ≤ limit
  | .startForget _ error | .signalling _ (.noReader error) | .awaiting _ (.noReader error) =>
    (encodePayload (rejectWith .spawnFailed error)).length ≤ limit
  | _ => True

/-- Since its Welcome all that a frontend was sent, and is about to be sent, is within
its limit. -/
structure Within (s : State) (f limit : ℕ) : Prop where
  past : s.Past f
  given : (s.handler f).peerFrameLimit.toNat = limit
  pc : (s.handler f).pc.Fits limit
  stream : ∀ x ∈ s.stream f, (encodePayload x.message).length ≤ limit

namespace State
variable {s : State} {f limit : ℕ}

theorem fits_reject {code : RejectCode} {detail : String} (hlimit : 157 ≤ limit)
    (h : Brief (utf8 detail)) : (reject code detail).Fits limit :=
  (rejectWith_length_le h).trans (by omega)

theorem fits_setHandler {t : State} {h : Handler} (hpc : h.pc.Fits limit) :
    ((t.setHandler f h).handler f).pc.Fits limit := by
  simpa [setHandler] using hpc

theorem fits_setPc {t : State} {pc : Pc} (hpc : pc.Fits limit) :
    ((t.setPc f pc).handler f).pc.Fits limit := by
  simpa [setPc] using hpc

theorem refuse_fits (hlimit : 157 ≤ limit) {code : RejectCode} {detail : String} (h : Brief (utf8 detail)) :
    ((s.setPc f (reject code detail)).handler f).pc.Fits limit := fits_setPc (fits_reject hlimit h)

theorem dispatchTerminal_fits (hlimit : 157 ≤ limit) (around : Surroundings) {name : String}
    (hname : Brief (utf8 name)) : ((s.dispatchTerminal f name around).handler f).pc.Fits limit := by
  unfold dispatchTerminal
  split
  · exact refuse_fits hlimit hname
  split
  · rename_i id hc refusal hm
    unfold controllerMaster at hm
    split at hm
    · obtain rfl := Except.error.inj hm
      exact refuse_fits hlimit (by decide)
    · split_ifs at hm
      · obtain rfl := Except.error.inj hm
        exact refuse_fits hlimit (by decide)
      · obtain rfl := Except.error.inj hm
        exact refuse_fits hlimit (by decide)
  · refine fits_setPc ?_
    split_ifs <;> trivial

theorem dispatchStart_fits (hlimit : 157 ≤ limit) (resolution : Option AgentResolution) (around : Surroundings) :
    ((s.dispatchStart f resolution around).handler f).pc.Fits limit := by
  unfold dispatchStart
  dsimp only
  generalize (if (s.handler f).lifecycleEnabled = true ∧
    ((s.handler f).controlledSession.any fun id => (s.sessions id).isNone) = true then none
    else (s.handler f).controlledSession) = controlled
  split
  · exact refuse_fits hlimit (by decide)
  split
  · exact refuse_fits hlimit (by decide)
  split
  · split
    · exact fits_setPc trivial
    · exact refuse_fits hlimit (by decide)
  · exact fits_setPc trivial

theorem dispatchStartAck_fits (hlimit : 157 ≤ limit) (id : Text) :
    ((s.dispatchStartAck f id).handler f).pc.Fits limit := by
  unfold dispatchStartAck
  dsimp only
  split
  · exact refuse_fits hlimit (by decide)
  split
  · exact refuse_fits hlimit (by decide)
  split
  · exact refuse_fits hlimit (by decide)
  split
  · exact refuse_fits hlimit (by decide)
  split
  · exact refuse_fits hlimit (by decide)
  · exact fits_setPc trivial

theorem dispatchAttach_fits (hlimit : 157 ≤ limit) (id : Text) :
    ((s.dispatchAttach f id).handler f).pc.Fits limit := by
  unfold dispatchAttach
  dsimp only
  split
  · exact refuse_fits hlimit (by decide)
  split
  · exact refuse_fits hlimit (by decide)
  split
  · exact refuse_fits hlimit (by decide)
  split
  · exact refuse_fits hlimit (by decide)
  · exact fits_setHandler trivial

theorem dispatchDetach_fits (hlimit : 157 ≤ limit) : ((s.dispatchDetach f).handler f).pc.Fits limit := by
  have detached : Pc.Fits limit (.replying .ptyDetached .idle) := le_trans (by decide) hlimit
  unfold dispatchDetach
  dsimp only
  split
  · exact refuse_fits hlimit (by decide)
  split
  · exact fits_setPc detached
  split
  · exact fits_setPc trivial
  split
  · exact fits_setPc detached
  · exact fits_setPc detached

theorem dispatchStop_fits (hlimit : 157 ≤ limit) (id : Text) :
    ((s.dispatchStop f id).handler f).pc.Fits limit := by
  unfold dispatchStop
  dsimp only
  split
  · exact refuse_fits hlimit (by decide)
  split
  · exact fits_setHandler (fits_reject hlimit (show Brief (utf8 _) by decide))
  split
  · exact fits_setHandler (fits_reject hlimit (show Brief (utf8 _) by decide))
  split
  · exact fits_setHandler (fits_reject hlimit (show Brief (utf8 _) by decide))
  · exact fits_setPc trivial

theorem dispatchMessage_fits (hlimit : 157 ≤ limit) (around : Surroundings) (m : Message) :
    ((s.dispatchMessage f around m).handler f).pc.Fits limit := by
  cases m with
  | ptyStart executable resolution argv cols rows => exact dispatchStart_fits hlimit resolution around
  | ptyStartAck id => exact dispatchStartAck_fits hlimit id
  | ptyAttach id => exact dispatchAttach_fits hlimit id
  | ptyDetach => exact dispatchDetach_fits hlimit
  | ptyStop id => exact dispatchStop_fits hlimit id
  | ptyInput data => exact dispatchTerminal_fits hlimit around (by decide)
  | ptyResize cols rows => exact dispatchTerminal_fits hlimit around (by decide)
  | _ => exact refuse_fits hlimit (by decide)

theorem receive_fits (hlimit : 157 ≤ limit) (around : Surroundings) {input : Input}
    (hlegal : input.Legal) (hpc : (s.handler f).peerFrameLimit.toNat = limit)
    (hecho : EchoFits s (.receive f input around)) :
    ((s.receive f around input).handler f).pc.Fits limit := by
  cases input with
  | eof => exact fits_setPc trivial
  | badFrame reject => exact fits_setPc ((frameRejects_length_le hlegal).trans (by omega))
  | frame value =>
    simp only [receive]
    cases hd : decodeValue value with
    | ok m => exact dispatchMessage_fits hlimit around m
    | error reject =>
      refine fits_setPc ?_
      rcases decodeValue_brief hd with hb | ⟨kind, hkind, rfl⟩
      · exact hb.trans (by omega)
      · simp only [EchoFits, Label.echo, hkind, Option.map_some] at hecho
        show (encodePayload _).length ≤ limit
        rw [rejectWith, encodePayload_reject_length, ← hpc]
        exact hecho

end State

namespace Within
variable {s : State} {l : Label} {f limit : ℕ}

theorem pc_at (h : Within s f limit) {pc : Pc} (hat : s.At f pc) : pc.Fits limit := by
  have hpc := h.pc
  rwa [show (s.handler f).pc = pc from hat] at hpc

/-- A repeated text fits by the condition on the step. -/
theorem repeated_fits (h : Within s f limit) (hecho : EchoFits s l) {code : RejectCode} {text : Text}
    (he : l.echo = some (f, code, text)) : (encodePayload (rejectWith code text)).length ≤ limit := by
  simp only [EchoFits, he, h.given] at hecho
  rw [rejectWith, encodePayload_reject_length]
  exact hecho

theorem drawId_fits (h : Within s f limit) (hlimit : 157 ≤ limit) (resolved : Option Text) (bytes : List UInt8) :
    ((s.drawId f resolved bytes).handler f).pc.Fits limit := by
  rw [State.drawId]
  split
  · exact h.pc
  split
  · exact State.fits_setPc (State.fits_reject hlimit (by decide))
  · exact State.fits_setPc trivial

/-- The answer to a start is measured before the agent runs. -/
theorem spawnAgent_fits (h : Within s f limit) (hlimit : 157 ≤ limit) {id : Text} {resolved : Option Text}
    {spawned : Except Text UInt32} {cleaned : Bool}
    (hecho : EchoFits s (.spawnAgent f id resolved spawned cleaned)) :
    ((s.spawnAgent f id resolved spawned cleaned).handler f).pc.Fits limit := by
  cases spawned with
  | error error => exact State.fits_setPc (h.repeated_fits hecho rfl)
  | ok pid =>
    simp only [State.spawnAgent]
    split
    · exact State.fits_setPc ((rejectWith_length_le (show Brief (utf8 _) by decide)).trans (by omega))
    · rename_i hmeasured
      refine State.fits_setPc ?_
      show (encodePayload _).length ≤ limit
      rw [← h.given]
      omega

theorem spawnWatcher_fits (h : Within s f limit) {st : Starting} {spawned : Outcome} {cleaned : Bool}
    (hat : s.At f (.startWatcher st)) (hecho : EchoFits s (.spawnWatcher f st spawned cleaned)) :
    ((s.spawnWatcher f st spawned cleaned).handler f).pc.Fits limit := by
  have hpc := h.pc_at hat
  cases spawned with
  | error error => exact State.fits_setPc (h.repeated_fits hecho rfl)
  | ok _ => exact State.fits_setPc hpc

theorem spawnReader_fits (h : Within s f limit) {st : Starting} {spawned : Outcome}
    (hat : s.At f (.startReader st)) (hecho : EchoFits s (.spawnReader f st spawned)) :
    ((s.spawnReader f st spawned).handler f).pc.Fits limit := by
  have hpc := h.pc_at hat
  cases spawned with
  | error error => exact State.fits_setPc (h.repeated_fits hecho rfl)
  | ok _ => exact State.fits_setPc hpc

theorem checkStartable_fits (h : Within s f limit) (hlimit : 157 ≤ limit) {st : Starting}
    (hat : s.At f (.startCheck st)) : ((s.checkStartable f st).handler f).pc.Fits limit := by
  have hpc := h.pc_at hat
  simp only [State.checkStartable, State.exitedFirst]
  split
  · exact State.fits_setPc hpc
  · exact State.fits_setPc (State.fits_reject hlimit (by decide))

theorem claim_fits (h : Within s f limit) (hlimit : 157 ≤ limit) {st : Starting}
    (hat : s.At f (.startClaim st)) : ((s.claim f st).handler f).pc.Fits limit := by
  have hpc := h.pc_at hat
  simp only [State.claim, State.exitedFirst]
  split
  · split
    · exact State.fits_setPc (State.fits_reject hlimit (by decide))
    · exact State.fits_setPc hpc
  · exact State.fits_setPc (State.fits_reject hlimit (by decide))

theorem finishStart_fits (st : Starting) (written : Bool) :
    ((s.finishStart f st written).handler f).pc.Fits limit := by
  rw [State.finishStart]
  split
  · refine State.fits_setPc ?_
    split_ifs <;> trivial
  split
  · exact State.fits_setPc trivial
  · exact State.fits_setPc trivial

theorem activateController_fits (id : Text) : ((s.activateController f id).handler f).pc.Fits limit := by
  rw [State.activateController]
  split
  · exact State.fits_setPc trivial
  · exact State.fits_setPc trivial

theorem requestStop_fits (h : Within s f limit) {id : Text} {cause : Cause} (hat : s.At f (.signalling id cause))
    (ok : Bool) : ((s.requestStop f id cause ok).handler f).pc.Fits limit := by
  have hpc := h.pc_at hat
  simp only [State.requestStop]
  split
  · refine State.fits_setPc ?_
    cases cause <;> exact hpc
  · cases cause with
    | gone rest =>
      refine State.fits_setPc ?_
      cases rest <;> trivial
    | _ => exact State.fits_setPc trivial

theorem completed_fits (h : Within s f limit) (hlimit : 157 ≤ limit) {id : Text} {cause : Cause} {result : Outcome}
    (hat : s.At f (.awaiting id cause)) (hecho : EchoFits s (.completed f id cause result)) :
    ((s.completed f cause result).handler f).pc.Fits limit := by
  have hpc := h.pc_at hat
  have hdone (m : Message) (hm : m = .ptyDetached ∨ m = .ptyStopped) : (encodePayload m).length ≤ limit := by
    rcases hm with rfl | rfl <;> exact le_trans (by decide) hlimit
  cases cause with
  | failedStart => exact State.fits_setPc trivial
  | noReader error => exact State.fits_setPc hpc
  | detach =>
    cases result with
    | ok _ => exact State.fits_setPc (hdone _ (.inl rfl))
    | error error => exact State.fits_setPc trivial
  | stop =>
    cases result with
    | ok _ => exact State.fits_setHandler (hdone _ (.inr rfl))
    | error error => exact State.fits_setHandler (h.repeated_fits hecho rfl)
  | gone rest =>
    refine State.fits_setPc ?_
    cases rest <;> trivial

/-- What the handler that acts does next fits. -/
theorem pc_step_of_actor (h : Within s f limit) (hlimit : 157 ≤ limit) (hen : s.enabled l) (hecho : EchoFits s l)
    (ha : l.actor = some f) : ((s.next l).handler f).pc.Fits limit := by
  cases l with
  | greet g input =>
    obtain rfl : g = f := by simpa [Label.actor] using ha
    exact absurd hen.1 h.past.2
  | receive g input around =>
    obtain rfl : g = f := by simpa [Label.actor] using ha
    exact State.receive_fits hlimit around hen.2 h.given hecho
  | sendReply g m after ok =>
    obtain rfl : g = f := by simpa [Label.actor] using ha
    refine State.fits_setPc ?_
    split_ifs <;> trivial
  | drawId g resolved bytes =>
    obtain rfl : g = f := by simpa [Label.actor] using ha
    exact h.drawId_fits hlimit resolved bytes
  | drawFailed g resolved =>
    obtain rfl : g = f := by simpa [Label.actor] using ha
    exact State.fits_setPc trivial
  | spawnAgent g id resolved spawned cleaned =>
    obtain rfl : g = f := by simpa [Label.actor] using ha
    exact h.spawnAgent_fits hlimit hecho
  | insertSession g id pid resolved =>
    obtain rfl : g = f := by simpa [Label.actor] using ha
    have hpc := h.pc_at (show s.At g (.startInsert id pid resolved) from hen)
    exact State.fits_setPc hpc
  | spawnWatcher g st spawned cleaned =>
    obtain rfl : g = f := by simpa [Label.actor] using ha
    exact h.spawnWatcher_fits hen hecho
  | forget g id error =>
    obtain rfl : g = f := by simpa [Label.actor] using ha
    have hpc := h.pc_at (show s.At g (.startForget id error) from hen)
    exact State.fits_setPc hpc
  | spawnReader g st spawned =>
    obtain rfl : g = f := by simpa [Label.actor] using ha
    exact h.spawnReader_fits hen hecho
  | checkStartable g st =>
    obtain rfl : g = f := by simpa [Label.actor] using ha
    exact h.checkStartable_fits hlimit hen
  | claim g st =>
    obtain rfl : g = f := by simpa [Label.actor] using ha
    exact h.claim_fits hlimit hen
  | sendStarted g st ok =>
    obtain rfl : g = f := by simpa [Label.actor] using ha
    exact State.fits_setHandler trivial
  | finishStart g st written =>
    obtain rfl : g = f := by simpa [Label.actor] using ha
    exact finishStart_fits st written
  | sendAttached g id pid lease ok =>
    obtain rfl : g = f := by simpa [Label.actor] using ha
    refine State.fits_setPc ?_
    split_ifs <;> trivial
  | activate g id =>
    obtain rfl : g = f := by simpa [Label.actor] using ha
    exact activateController_fits id
  | signal g id cause ok =>
    obtain rfl : g = f := by simpa [Label.actor] using ha
    exact h.requestStop_fits hen ok
  | completed g id cause result =>
    obtain rfl : g = f := by simpa [Label.actor] using ha
    exact h.completed_fits hlimit hen.1 hecho
  | disconnect g =>
    obtain rfl : g = f := by simpa [Label.actor] using ha
    refine State.fits_setPc ?_
    cases s.unconfirmed g <;> trivial
  | _ => simp [Label.actor] at ha

theorem pc_step (h : Within s f limit) (hI : Leases s) (hlimit : 157 ≤ limit) (hen : s.enabled l)
    (hecho : EchoFits s l) : ((s.next l).handler f).pc.Fits limit := by
  by_cases ha : l.actor = some f
  · exact h.pc_step_of_actor hlimit hen hecho ha
  · rw [State.handler_frame hI hen ha fun _ => h.past.1]
    exact h.pc

theorem stream_step (h : Within s f limit) (hI : Leases s) (hL : Limits s)
    (hlegal : ∀ id ∈ s.drawn, sessionIdIsLegal id = .ok ()) (hlimit : 157 ≤ limit)
    (hen : s.enabled l) (x : Sent) (hx : x ∈ (s.next l).stream f) :
    (encodePayload x.message).length ≤ limit := by
  rcases s.stream_step hI hen f with e | ⟨y, e, hw, -⟩
  · exact h.stream x (e ▸ hx)
  rw [e, List.mem_append, List.mem_singleton] at hx
  rcases hx with hx | rfl
  · exact h.stream x hx
  have hpc := h.pc
  cases hw with
  | reply m after hat =>
    have hpc' : (s.handler f).pc = .replying m after := hat
    rwa [hpc'] at hpc
  | started st hat =>
    have hpc' : (s.handler f).pc = .startSend st := hat
    rwa [hpc'] at hpc
  | attached id pid lease hat =>
    have hpc' : (s.handler f).pc = .attachSend id pid lease := hat
    have hat := hI.at_pc f
    simp only [State.AtPc, hpc'] at hat
    have hwidth := sessionId_width (hlegal id (hI.known_of_leased (.inr hat.1)).1)
    have hlen := encodePayload_ptyAttached_length_le id pid
    rw [hwidth, maxSessionIdHex] at hlen
    exact hlen.trans (by omega)
  | exited id note result hwatch hf =>
    have hdrawn : id ∈ s.drawn := by
      by_contra hid
      simp [(hI.fresh id hid).1.watcher] at hwatch
    have hlen := encodePayload_session_length (.ptyExited id) id rfl
    have htag : escapedLength (Message.ptyExited id).kind.tag = 10 := tag_widths.2.2.2.2.2.2.1
    rw [sessionId_width (hlegal id hdrawn), htag, maxSessionIdHex] at hlen
    exact hlen.le.trans (by omega)
  | output id out hr hf hwill =>
    have hcopy := (hL.reader id out (by simp [hr, Reader.outgoing])).2
    simp only [State.willWrite, Bool.true_and, decide_eq_true_eq] at hwill
    rw [hcopy, hf, h.given] at hwill
    exact hwill

theorem step (h : Within s f limit) (hI : Leases s) (hL : Limits s)
    (hlegal : ∀ id ∈ s.drawn, sessionIdIsLegal id = .ok ()) (hlimit : 157 ≤ limit)
    (hen : s.enabled l) (hecho : EchoFits s l) : Within (s.next l) f limit where
  past := (State.past_step hI hen h.past).1
  given := by
    rw [(State.past_step hI hen h.past).2]
    exact h.given
  pc := h.pc_step hI hlimit hen hecho
  stream := h.stream_step hI hL hlegal hlimit hen

end Within

/-- No frame on any stream is over the ceiling. -/
theorem stream_le_maxFrameLen {s : State} (h : (broker.restrict FreshIds).Reachable s) (f : ℕ) :
    ∀ x ∈ s.stream f, (encodePayload x.message).length ≤ maxFrameLen := by
  refine h.invariant (P := fun s => ∀ x ∈ s.stream f, (encodePayload x.message).length ≤ maxFrameLen)
    (fun x hx => by simp [broker, System.restrict, State.start] at hx) fun t l ht hP hen x hx => ?_
  rcases t.stream_step (leases_of_reachable ht) hen.1 f with e | ⟨y, e, -, -, hlen⟩
  · exact hP x (e ▸ hx)
  · have hx : x ∈ t.stream f ++ [y] := e ▸ hx
    rcases List.mem_append.mp hx with hx | hx
    · exact hP x hx
    · obtain rfl : x = y := by simpa using hx
      exact hlen

/-- The Welcome itself starts a frontend within its limit. -/
theorem within_of_welcome {s : State} (hL : Limits s) {f : ℕ} {value : Option Value}
    {hello : Message} (hpc : s.At f .greeting) (hd : decodeValue value = .ok hello)
    (hw : (negotiate hello).kind = .welcome) :
    Within (s.next (.greet f (.frame value))) f (helloLimit hello).toNat := by
  have hpc' : (s.handler f).pc = .greeting := hpc
  have hnone : s.stream f = [] := by
    by_contra hne
    exact (hL.stream f hne).2 hpc'
  have hnext : s.next (.greet f (.frame value)) = s.setHandler f
      { pc := .replying (negotiate hello) .idle
        controlledSession := none
        peerFrameLimit := helloLimit hello
        agentPathEnabled := welcomeHas "agent-path-v1" (negotiate hello)
        lifecycleEnabled := welcomeHas "session-lifecycle-v1" (negotiate hello) } := by
    simp only [State.next, State.greet, hd, hw, if_true]
  rw [hnext]
  constructor
  · simp [State.Past, State.setHandler]
  · simp [State.setHandler]
  · exact State.fits_setHandler (limit_of_welcome hw).2
  · intro x hx
    have hx : x ∈ s.stream f := hx
    simp [hnone] at hx

/-- Whatever a frontend sends after its Welcome and whatever the agents do, each payload
written to it is within its limit and the ceiling, while every repeated text fits. -/
theorem payload_within_limit {s : State} (h : fitting.Reachable s) {f : ℕ} {value : Option Value}
    {hello : Message} (hpc : s.At f .greeting) (hd : decodeValue value = .ok hello)
    (hw : (negotiate hello).kind = .welcome) (ls : List Label)
    (hv : fitting.Valid (s.next (.greet f (.frame value))) ls) :
    ∀ x ∈ (fitting.run (s.next (.greet f (.frame value))) ls).stream f,
      (encodePayload x.message).length ≤ (helloLimit hello).toNat ∧
        (encodePayload x.message).length ≤ maxFrameLen := by
  have fresh {t : State} (ht : fitting.Reachable t) : (broker.restrict FreshIds).Reachable t :=
    ht.mono fun _ _ hok => hok.1
  have hen : fitting.enabled s (.greet f (.frame value)) := ⟨⟨hpc, trivial⟩, trivial, trivial⟩
  have hgreeted : fitting.Reachable (s.next (.greet f (.frame value))) := h.step hen
  have hwithin : Within (fitting.run (s.next (.greet f (.frame value))) ls) f
      (helloLimit hello).toNat := by
    refine hv.invariant (P := fun t => Within t f (helloLimit hello).toNat)
      (fun t l ht hW hen => ?_) hgreeted (within_of_welcome (limits_of_reachable (fresh h)) hpc hd hw)
    exact hW.step (leases_of_reachable (fresh ht)) (limits_of_reachable (fresh ht))
      (fun id hid => drawn_legal (fresh ht) hid) (limit_of_welcome hw).1 hen.1 hen.2.2
  intro x hx
  exact ⟨hwithin.stream x hx, stream_le_maxFrameLen (fresh (hgreeted.run ls hv)) f x hx⟩

-- a frontend with the least limit sends a message of an unknown type

def leastHello : Message :=
  .hello 1 (utf8 "desktop") (List.replicate nonceHexLen 0x61) [] 157

def unknownFrame (width : ℕ) : Input :=
  .frame (some (.obj [(utf8 "type", .str (List.replicate width 0x78))]))

def unknownReject (width : ℕ) : Message :=
  rejectWith .unknownType (unknownTypeDetail (List.replicate width 0x78))

def unknownRun (width : ℕ) : List Label :=
  [.sendReply 1 (negotiate leastHello) .idle true, .receive 1 (unknownFrame width) ⟨none, true⟩,
    .sendReply 1 (unknownReject width) .idle true]

theorem payload_over_limit :
    ¬ ∀ (s : State) (f : ℕ) (value : Option Value) (hello : Message) (ls : List Label),
      (broker.restrict FreshIds).Reachable s → s.At f .greeting → decodeValue value = .ok hello →
      (negotiate hello).kind = .welcome →
      (broker.restrict FreshIds).Valid (s.next (.greet f (.frame value))) ls →
      ∀ x ∈ ((broker.restrict FreshIds).run (s.next (.greet f (.frame value))) ls).stream f,
        (encodePayload x.message).length ≤ (helloLimit hello).toNat ∧
          (encodePayload x.message).length ≤ maxFrameLen := by
  intro h
  have hx := (h .start 1 (some leastHello.toValue) leastHello (unknownRun 128) .init rfl
    (by decide +kernel) (by decide +kernel) (by decide +kernel) ⟨unknownReject 128, .plain⟩
    (by decide +kernel)).1
  exact absurd hx (by decide +kernel)

theorem payload_within_limit_unknown : (encodePayload (unknownReject 20)).length ≤ 157 :=
  (@payload_within_limit .start .init 1 (some leastHello.toValue) leastHello rfl
    (by decide +kernel) (by decide +kernel) (unknownRun 20) (by decide +kernel)
    ⟨unknownReject 20, .plain⟩ (by decide +kernel)).1

end Winsmux.RemoteHelper
