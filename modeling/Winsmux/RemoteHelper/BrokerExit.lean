import Winsmux.RemoteHelper.BrokerStream
import Winsmux.RemoteHelper.Codec

/-!
# Exits and the leases they end

The start path keeps the watcher waiting until PtyStarted is written; the attach
path installs its controller first and writes PtyAttached later. `AttachFirst`
keeps the runs where the watcher does not write in between; in these every
PtyExited stands behind the grant of the lease that it ends.
-/
namespace Winsmux.RemoteHelper
open Json Transition Log

/-- An exit stands behind the grant of its lease, and no attach behind the exit. -/
def ExitOrder (pre : List Sent) (x : Sent) : Prop :=
  (∀ id, x.message = .ptyExited id →
    ∃ n, x.mark = .lease n ∧ ∃ grant ∈ pre, grant.grants = some id ∧ grant.mark = .lease n) ∧
  ∀ id pid, x.message = .ptyAttached id pid → ∀ y ∈ pre, y.message ≠ .ptyExited id

/-- No PtyExited is written for a frontend whose handler has installed its
controller and not yet sent PtyAttached. -/
def AttachFirst (s : State) : Label → Prop
  | .notifyExit id note _ ok => ok = true →
    match (s.handler note.frontendId).pc with
    | .attachSend id' _ _ => id' ≠ id
    | _ => True
  | _ => True

/-- `AttachFirst`, as it is computed. -/
def attachFirst (s : State) : Label → Bool
  | .notifyExit id note _ ok => !ok ||
    match (s.handler note.frontendId).pc with
    | .attachSend id' _ _ => id' ≠ id
    | _ => true
  | _ => true

theorem attachFirst_iff (s : State) (l : Label) : attachFirst s l = true ↔ AttachFirst s l := by
  cases l with
  | notifyExit id note m ok =>
    cases ok with
    | false => simp [attachFirst, AttachFirst]
    | true =>
      simp only [attachFirst, AttachFirst, Bool.not_true, Bool.false_or, forall_const]
      split <;> simp
  | _ => simp [attachFirst, AttachFirst]

instance (s : State) (l : Label) : Decidable (AttachFirst s l) := decidable_of_iff _ (attachFirst_iff s l)

namespace State

/-- The lease `n` on `id` is granted on the stream of `f`. -/
def Granted (s : State) (f : ℕ) (id : Text) (n : ℕ) : Prop :=
  ∃ grant ∈ s.stream f, grant.grants = some id ∧ grant.mark = .lease n

/-- It is granted, or its PtyAttached is the next frame of the handler, or no frame
can follow. -/
def Due (s : State) (f : ℕ) (id : Text) (n : ℕ) : Prop :=
  s.Granted f id n ∨ s.broken f = true ∨ ∃ pid, s.At f (.attachSend id pid n)

def Reported (s : State) (f : ℕ) (id : Text) : Prop :=
  ∃ x ∈ s.stream f, x.message = .ptyExited id

variable {s : State} {l : Label} {f : ℕ}

theorem mem_stream_step (hI : Leases s) (hen : s.enabled l) {x : Sent} (hx : x ∈ s.stream f) :
    x ∈ (s.next l).stream f := by
  rcases s.stream_step hI hen f with e | ⟨y, e, -⟩
  · rwa [e]
  · rw [e]
    exact List.mem_append_left _ hx

theorem Granted.step (hI : Leases s) (hen : s.enabled l) {id : Text} {n : ℕ}
    (h : s.Granted f id n) : (s.next l).Granted f id n := by
  obtain ⟨grant, hmem, hgrant⟩ := h
  exact ⟨grant, mem_stream_step hI hen hmem, hgrant⟩

/-- A lost connection stays lost. -/
theorem broken_step (hI : Leases s) (hen : s.enabled l) (h : s.broken f = true) :
    (s.next l).broken f = true := by
  have written (t : State) (g : ℕ) (frame : Sent) (ok : Bool) (ht : t.broken f = true) :
      (t.write g frame ok).broken f = true := by
    unfold write
    dsimp only
    split_ifs
    · exact ht
    · by_cases hg : f = g
      · simp [hg]
      · simpa [hg] using ht
  cases l with
  | receive g input around =>
    rw [show (s.next (.receive g input around)).broken = s.broken from
      (s.receive_received g around input hen.2 hI.alive).rest.2.2.2.2.1]
    exact h
  | sendReply g m after ok => exact written s g _ ok h
  | sendStarted g st ok => exact written s g _ ok h
  | sendAttached g id pid lease ok => exact written s g _ ok h
  | notifyExit id note result ok => exact written s note.frontendId _ ok h
  | writeOutput id out stillActive ok =>
    simp only [next, writeOutput, setReader, setWriterLock]
    split_ifs
    · exact written s out.frontendId _ ok h
    · exact h
  | _ =>
    simp only [next, greet, drawId, spawnAgent, insertSession, spawnWatcher, forget,
      spawnReader, checkStartable, claim, exitedFirst, finishStart,
      activateController, requestStop, stopGroup, completed, disconnectFrontend, setGroup,
      removeAfterAgentExit, reapGroup, finishCompletion, setReader,
      snapshotController, lockWriter, recheck, setPc, setHandler, setSession,
      setWatcher, openGate, setWriterLock]
    repeat' split
    all_goals exact h

/-- A handler about to send PtyAttached does nothing else. -/
theorem attachSend_frame {id : Text} {pid : UInt32} {n : ℕ} (hI : Leases s) (hen : s.enabled l)
    (hpc : s.At f (.attachSend id pid n)) (hl : ∀ ok, l ≠ .sendAttached f id pid n ok) :
    (s.next l).At f (.attachSend id pid n) := by
  have hpc' : (s.handler f).pc = .attachSend id pid n := hpc
  by_cases ha : l.actor = some f
  · cases l with
    | sendAttached g id' pid' n' ok =>
      obtain rfl : g = f := by simpa [Label.actor] using ha
      have h : Pc.attachSend id pid n = .attachSend id' pid' n' := hpc'.symm.trans hen.1
      obtain ⟨rfl, rfl, rfl⟩ : id = id' ∧ pid = pid' ∧ n = n' := by simpa using h
      exact absurd rfl (hl ok)
    | _ =>
      simp only [Label.actor, Option.some.injEq, reduceCtorEq] at ha <;> subst ha <;>
        simp [enabled, At, hpc'] at hen
  · unfold At
    rw [handler_frame hI hen ha (by simp [hpc']), hpc']

theorem Due.step (hI : Leases s) (hlegal : ∀ id ∈ s.drawn, sessionIdIsLegal id = .ok ())
    (hen : s.enabled l) {id : Text} {n : ℕ} (h : s.Due f id n) : (s.next l).Due f id n := by
  obtain h | h | ⟨pid, hpc⟩ := h
  · exact .inl (h.step hI hen)
  · exact .inr (.inl (broken_step hI hen h))
  by_cases hl : ∃ ok, l = .sendAttached f id pid n ok
  · obtain ⟨ok, rfl⟩ := hl
    cases ok with
    | true =>
      left
      refine ⟨attachedFrame id pid n, ?_, rfl, rfl⟩
      have e : (s.next (.sendAttached f id pid n true)).stream f =
          s.stream f ++ [attachedFrame id pid n] := by
        simpa [next, sendAttached, setPc] using s.write_stream f (attachedFrame id pid n) true f
      simp [e]
    | false =>
      -- PtyAttached of a legal id fits into every frame, so the connection is lost.
      have hpc' : (s.handler f).pc = .attachSend id pid n := hpc
      have hat := hI.at_pc f
      simp only [AtPc, hpc'] at hat
      have hwidth := sessionId_width (hlegal id (hI.known_of_leased (.inr hat.1)).1)
      have hlen := encodePayload_ptyAttached_length_le id pid
      have hfits : ¬ maxFrameLen < (encodePayload (.ptyAttached id pid)).length := by
        rw [hwidth] at hlen
        exact not_lt.mpr (hlen.trans (by decide))
      right
      left
      simp [next, sendAttached, write, attachedFrame, hfits, setPc]
  · exact .inr (.inr ⟨pid, attachSend_frame hI hen hpc fun ok e => hl ⟨ok, e⟩⟩)

end State

/-- The frontend that a watcher is to notify. -/
def Watcher.note : Watcher → Option ExitNotification
  | .reaping note => note
  | .notifying note _ => some note
  | _ => none

/-- A watcher's note is an old one, or it is taken from the controller of the session. -/
theorem note_source {s : State} {l : Label} (hI : Leases s) (hen : s.enabled l) {id : Text}
    {note : ExitNotification} (hnote : ((s.next l).watcher id).note = some note) :
    (s.watcher id).note = some note ∨ ∃ session c, s.sessions id = some session ∧
      session.writePhase = .written ∧ session.controller = some c ∧
      note = ⟨c.frontendId, c.lease⟩ := by
  by_cases hl : l.agent = some id
  · cases l with
    | spawnAgent g id' resolved spawned cleaned =>
      left
      revert hnote
      simp only [State.next, State.spawnAgent]
      repeat' split
      all_goals exact fun h => h
    | spawnWatcher g st spawned cleaned =>
      obtain rfl : st.id = id := by simpa [Label.agent] using hl
      cases spawned with
      | ok _ => simp [State.next, State.spawnWatcher, State.setWatcher, State.setPc, Watcher.note] at hnote
      | error error => exact .inl hnote
    | signal g id' cause ok =>
      left
      revert hnote
      simp only [State.next, State.requestStop, State.stopGroup]
      repeat' split
      all_goals exact fun h => h
    | agentExit id' => exact .inl hnote
    | agentKilled id' => exact .inl hnote
    | classify id' =>
      obtain rfl : id' = id := by simpa [Label.agent] using hl
      have hnote : (s.sessions id').bind State.exitNotification = some note := by
        simpa [State.next, State.removeAfterAgentExit, State.setWatcher, Watcher.note] using hnote
      obtain ⟨session, hs, hn⟩ := Option.bind_eq_some_iff.mp hnote
      unfold State.exitNotification at hn
      split_ifs at hn with hw
      obtain ⟨c, hc, hn⟩ := Option.map_eq_some_iff.mp hn
      exact .inr ⟨session, c, hs, hw.1, (Option.filter_eq_some_iff.mp hc).1, hn.symm⟩
    | reapGroup id' note' result =>
      obtain rfl : id' = id := by simpa [Label.agent] using hl
      have hw : s.watcher id' = .reaping note' := hen
      left
      cases note' with
      | none => simp [State.next, State.reapGroup, State.setWatcher, Watcher.note] at hnote
      | some note' =>
        simpa [State.next, State.reapGroup, State.setWatcher, Watcher.note, hw] using hnote
    | notifyExit id' note' result ok =>
      obtain rfl : id' = id := by simpa [Label.agent] using hl
      simp [State.next, State.notifyExit, State.setWatcher, Watcher.note] at hnote
    | finish id' result guardian =>
      obtain rfl : id' = id := by simpa [Label.agent] using hl
      simp [State.next, State.finishCompletion, State.setWatcher, Watcher.note] at hnote
    | _ => simp [Label.agent] at hl
  · rw [(State.agent_frame hI hen hl).1] at hnote
    exact .inl hnote

structure Exits (s : State) : Prop where
  started : ∀ f st, s.At f (.startFinish st true) → s.Granted f st.id st.lease
  controller : ∀ id session c, s.sessions id = some session → session.writePhase = .written →
    session.controller = some c → s.Due c.frontendId id c.lease
  note : ∀ id note, (s.watcher id).note = some note → s.Due note.frontendId id note.lease
  reported : ∀ f id, s.Reported f id → s.sessions id = none ∧ s.watcher id ≠ .absent ∧
    ∀ pid n, ¬ s.At f (.attachSend id pid n)
  orderly : ∀ f, Orderly ExitOrder (s.stream f)

namespace Exits
variable {s : State} {l : Label}

theorem started_step (h : Exits s) (hI : Leases s) (hen : s.enabled l) (f : ℕ) (st : Starting)
    (hat' : (s.next l).At f (.startFinish st true)) : (s.next l).Granted f st.id st.lease := by
  have hpc' : ((s.next l).handler f).pc = .startFinish st true := hat'
  rcases hI.enters hen f with he | e
  · rw [hpc'] at he
    cases he with
    | sent _ _ =>
      have hstream : (s.next (.sendStarted f st true)).stream f =
          s.stream f ++ [State.startedFrame st] := by
        simpa [State.next, State.sendStarted, State.setHandler] using
          s.write_stream f (State.startedFrame st) true f
      exact ⟨State.startedFrame st, by simp [hstream], rfl, rfl⟩
    | other hn => exact absurd trivial hn
  · have hpc : (s.handler f).pc = .startFinish st true := e.symm.trans hpc'
    exact (h.started f st hpc).step hI hen

theorem controller_step (h : Exits s) (hI : Leases s)
    (hlegal : ∀ id ∈ s.drawn, sessionIdIsLegal id = .ok ()) (hen : s.enabled l) (id : Text)
    (session : Session) (c : Controller) (hs' : (s.next l).sessions id = some session)
    (hw' : session.writePhase = .written) (hc' : session.controller = some c) :
    (s.next l).Due c.frontendId id c.lease := by
  have was {session' : Session} {c' : Controller} (hs : s.sessions id = some session')
      (hw : session'.writePhase = .written) (hc : session'.controller = some c')
      (hf : c'.frontendId = c.frontendId) (hn : c'.lease = c.lease) :
      (s.next l).Due c.frontendId id c.lease :=
    hf ▸ hn ▸ (h.controller id session' c' hs hw hc).step hI hlegal hen
  have hch := hI.changed hen id
  rw [hs'] at hch
  generalize hnew : some session = new at hch
  cases hch with
  | same _ => exact was hnew.symm hw' hc' rfl rfl
  | inserted f pid resolved session' _ _ hst =>
    obtain rfl := Option.some.inj hnew
    simp [hst.writePhase] at hw'
  | claimed f st session' _ _ hst =>
    obtain rfl := Option.some.inj hnew
    simp at hw'
  | announced f st session' hid hs hst =>
    obtain rfl := Option.some.inj hnew
    obtain rfl := Option.some.inj hc'
    subst hid
    have hpc : s.At f (.startFinish st true) := hen
    exact .inl ((h.started f st hpc).step hI hen)
  | abandoned f st session' hid hs hst =>
    obtain rfl := Option.some.inj hnew
    simp at hw'
  | confirmed f input around session' hs hw _ =>
    obtain rfl := Option.some.inj hnew
    exact was hs hw hc' rfl rfl
  | attached f input around session' hs hnone hpc =>
    obtain rfl := Option.some.inj hnew
    obtain rfl := Option.some.inj hc'
    exact .inr (.inr ⟨_, hpc⟩)
  | released f input around session' _ _ _ =>
    obtain rfl := Option.some.inj hnew
    simp [Session.release] at hc'
  | stopped f input around session' c' hs hc hf =>
    obtain rfl := Option.some.inj hnew
    obtain rfl := Option.some.inj hc'
    exact was hs hw' hc rfl rfl
  | activated f session' c' hs hc hf =>
    obtain rfl := Option.some.inj hnew
    obtain rfl := Option.some.inj hc'
    exact was hs hw' hc rfl rfl
  | dropped f session' _ _ _ =>
    obtain rfl := Option.some.inj hnew
    simp [Session.release] at hc'
  | left _ _ _ _ _ _ => cases hnew
  | forgotten _ _ _ _ _ _ => cases hnew
  | lost _ _ _ _ => cases hnew
  | classified _ _ => cases hnew

theorem note_step (h : Exits s) (hI : Leases s)
    (hlegal : ∀ id ∈ s.drawn, sessionIdIsLegal id = .ok ()) (hen : s.enabled l) (id : Text)
    (note : ExitNotification) (hnote : ((s.next l).watcher id).note = some note) :
    (s.next l).Due note.frontendId id note.lease := by
  have before : s.Due note.frontendId id note.lease := by
    rcases note_source hI hen hnote with hnote | ⟨session, c, hs, hw, hc, rfl⟩
    · exact h.note id note hnote
    · exact h.controller id session c hs hw hc
  exact before.step hI hlegal hen

theorem reported_step (h : Exits s) (hI : Leases s) (hen : s.enabled l) (hfirst : AttachFirst s l)
    (f : ℕ) (id : Text) (hx : (s.next l).Reported f id) :
    (s.next l).sessions id = none ∧ (s.next l).watcher id ≠ .absent ∧
      ∀ pid n, ¬ (s.next l).At f (.attachSend id pid n) := by
  -- Before the step already the session was gone and no attach to it was on its way.
  have before : s.sessions id = none ∧ s.watcher id ≠ .absent ∧
      ∀ pid n, ¬ s.At f (.attachSend id pid n) := by
    obtain ⟨x, hmem, hx⟩ := hx
    rcases s.stream_step hI hen f with e | ⟨y, e, hw, -⟩
    · exact h.reported f id ⟨x, e ▸ hmem, hx⟩
    rw [e, List.mem_append, List.mem_singleton] at hmem
    rcases hmem with hmem | rfl
    · exact h.reported f id ⟨x, hmem, hx⟩
    cases hw with
    | exited id' note result hwatch hf =>
      obtain rfl : id' = id := by simpa [State.exitedFrame] using hx
      refine ⟨hI.session_of_watcher (by simp [hwatch]) (by simp [hwatch]), by simp [hwatch], ?_⟩
      intro pid n hpc
      have hpc' : (s.handler note.frontendId).pc = .attachSend id' pid n := hf ▸ hpc
      have hne := hfirst rfl
      simp [hpc'] at hne
    | reply m after hpc =>
      have hpc : (s.handler f).pc = .replying m after := hpc
      have hat := hI.at_pc f
      simp only [State.AtPc, hpc] at hat
      obtain rfl : m = .ptyExited id := hx
      exact absurd hat.1 (fun h => h)
    | _ => simp [State.startedFrame, State.attachedFrame, State.outputFrame, State.outputMessage] at hx
  obtain ⟨hs, hw, hpc⟩ := before
  refine ⟨hI.gone_step hen hs hw, watched_step hI hen hw, fun pid n hpc' => ?_⟩
  have hpc' : ((s.next l).handler f).pc = .attachSend id pid n := hpc'
  rcases hI.enters hen f with he | e
  · rw [hpc'] at he
    cases he with
    | attaching _ _ _ session hs' => simp [hs] at hs'
    | other hn => exact absurd trivial hn
  · exact hpc pid n (e.symm.trans hpc')

theorem orderly_step (h : Exits s) (hI : Leases s) (hen : s.enabled l) (hfirst : AttachFirst s l)
    (f : ℕ) : Orderly ExitOrder ((s.next l).stream f) := by
  rcases s.stream_step hI hen f with e | ⟨x, e, hw, hopen, -⟩
  · rw [e]
    exact h.orderly f
  rw [e, orderly_concat]
  refine ⟨h.orderly f, ?_⟩
  cases hw with
  | attached id pid lease hpc =>
    constructor
    · intro id' hid
      simp [State.attachedFrame] at hid
    · intro id' pid' hid y hy hexit
      obtain ⟨rfl, -⟩ : id = id' ∧ pid = pid' := by simpa [State.attachedFrame] using hid
      exact (h.reported f id ⟨y, hy, hexit⟩).2.2 pid lease hpc
  | exited id note result hwatch hf =>
    subst hf
    constructor
    · intro id' hid
      obtain rfl : id = id' := by simpa [State.exitedFrame] using hid
      refine ⟨note.lease, rfl, ?_⟩
      obtain hgranted | hbroken | ⟨pid, hpc⟩ := h.note id note (by simp [hwatch, Watcher.note])
      · exact hgranted
      · simp [hopen] at hbroken
      · have hpc : (s.handler note.frontendId).pc = .attachSend id pid note.lease := hpc
        have hne := hfirst rfl
        simp [hpc] at hne
    · intro id' pid hid
      simp [State.exitedFrame] at hid
  | reply m after hpc =>
    have hpc : (s.handler f).pc = .replying m after := hpc
    have hat := hI.at_pc f
    simp only [State.AtPc, hpc] at hat
    constructor
    · intro id hid
      obtain rfl : m = .ptyExited id := hid
      exact absurd hat.1 (fun h => h)
    · intro id pid hid
      obtain rfl : m = .ptyAttached id pid := hid
      exact absurd hat.1 (fun h => h)
  | started st hpc => constructor <;> simp [State.startedFrame]
  | output id out _ _ _ => constructor <;> simp [State.outputFrame, State.outputMessage]

theorem step (h : Exits s) (hI : Leases s)
    (hlegal : ∀ id ∈ s.drawn, sessionIdIsLegal id = .ok ()) (hen : s.enabled l)
    (hfirst : AttachFirst s l) : Exits (s.next l) where
  started := h.started_step hI hen
  controller := h.controller_step hI hlegal hen
  note := h.note_step hI hlegal hen
  reported := h.reported_step hI hen hfirst
  orderly := h.orderly_step hI hen hfirst

end Exits

/-- The broker in the runs where no exit overtakes a PtyAttached. -/
def attachingFirst : System State Label :=
  broker.restrict fun s l => FreshIds s l ∧ AttachFirst s l

instance (s : State) (l : Label) : Decidable (attachingFirst.enabled s l) :=
  inferInstanceAs (Decidable (broker.enabled s l ∧ FreshIds s l ∧ AttachFirst s l))

theorem exits_of_reachable {s : State} (h : attachingFirst.Reachable s) : Exits s := by
  refine h.invariant (P := Exits) ?_ fun t l ht hE hen => ?_
  · exact
      { started := fun f st hat => by
          simp only [attachingFirst, broker, System.restrict, State.At, State.start] at hat
          split at hat <;> simp [Handler.new] at hat
        controller := fun id session c hs => by
          simp [attachingFirst, broker, System.restrict, State.start] at hs
        note := fun id note hn => by
          simp [attachingFirst, broker, System.restrict, State.start, Watcher.note] at hn
        reported := fun f id hx => by
          simp [attachingFirst, broker, System.restrict, State.start, State.Reported] at hx
        orderly := fun f => orderly_nil _ }
  · have hfresh : (broker.restrict FreshIds).Reachable t := ht.mono fun _ _ hok => hok.1
    exact hE.step (leases_of_reachable hfresh) (fun id hid => drawn_legal hfresh hid) hen.1 hen.2.2

/-- Every exit on a stream stands behind the grant of the lease it is reported under,
and no attach behind it, in every run where no exit overtakes a PtyAttached. -/
theorem exit_after_grant {s : State} (h : attachingFirst.Reachable s) (f : ℕ) :
    Orderly ExitOrder (s.stream f) :=
  (exits_of_reachable h).orderly f

-- a second frontend attaches to the session of `startRun` while its agent exits

def attachRun : List Label :=
  startRun ++ [.receive 1 (frameOf (.ptyStartAck sampleId)) ⟨none, true⟩,
    .receive 1 (frameOf .ptyDetach) ⟨none, true⟩, .sendReply 1 .ptyDetached .idle true, .accept,
    .greet 2 (frameOf sampleHello), .sendReply 2 (negotiate sampleHello) .idle true,
    .receive 2 (frameOf (.ptyAttach sampleId)) ⟨none, true⟩]

def exitRun : List Label :=
  [.agentExit sampleId, .classify sampleId, .reapGroup sampleId (some ⟨2, 1⟩) (.ok ()),
    .notifyExit sampleId ⟨2, 1⟩ (.ok ()) true]

/-- The watcher writes while the handler has still to send PtyAttached. -/
def overtakenRun : List Label := attachRun ++ exitRun ++ [.sendAttached 2 sampleId 42 1 true]

/-- The same exit after the attach. -/
def attachedRun : List Label :=
  attachRun ++ [.sendAttached 2 sampleId 42 1 true, .activate 2 sampleId] ++ exitRun

theorem exit_overtakes_grant :
    ¬ ∀ s, (broker.restrict FreshIds).Reachable s → ∀ f, Orderly ExitOrder (s.stream f) := by
  intro h
  have hv : (broker.restrict FreshIds).Valid (broker.restrict FreshIds).init overtakenRun := by
    decide +kernel
  have hstream : ((broker.restrict FreshIds).run (broker.restrict FreshIds).init overtakenRun).stream 2 =
      [⟨negotiate sampleHello, .plain⟩] ++ State.exitedFrame sampleId ⟨2, 1⟩ ::
        [State.attachedFrame sampleId 42 1] := by
    decide +kernel
  obtain ⟨n, -, grant, hmem, hgrant, -⟩ :=
    (h _ (System.Reachable.run .init overtakenRun hv) 2 _ _ _ hstream).1 sampleId rfl
  obtain rfl : grant = ⟨negotiate sampleHello, .plain⟩ := by simpa using hmem
  exact absurd hgrant (by decide +kernel)

theorem exit_after_grant_attached :
    ∃ grant ∈ [⟨negotiate sampleHello, .plain⟩, State.attachedFrame sampleId 42 1],
      grant.grants = some sampleId ∧ grant.mark = .lease 1 := by
  have hv : attachingFirst.Valid attachingFirst.init attachedRun := by
    decide +kernel
  have hstream : (attachingFirst.run attachingFirst.init attachedRun).stream 2 =
      [⟨negotiate sampleHello, .plain⟩, State.attachedFrame sampleId 42 1] ++
        State.exitedFrame sampleId ⟨2, 1⟩ :: [] := by
    decide +kernel
  obtain ⟨n, hn, h⟩ := (exit_after_grant (System.Reachable.run .init attachedRun hv) 2 _ _ _
    hstream).1 sampleId rfl
  obtain rfl : 1 = n := by simpa [State.exitedFrame] using hn
  exact h

end Winsmux.RemoteHelper
