import Winsmux.Log
import Winsmux.RemoteHelper.BrokerSession

/-!
# What a frontend sees

The frames on one frontend's stream, in the order of their writes: which step writes
which frame, and that the bytes of a session stand inside a lease on it.
-/
namespace Winsmux.RemoteHelper
open Json Transition Log

/-- Everything that a step can write on the stream of `f`. -/
inductive Wrote (s : State) (f : ℕ) : Label → Sent → Prop
  | reply (m : Message) (after : After) : s.At f (.replying m after) →
    Wrote s f (.sendReply f m after true) ⟨m, .plain⟩
  | started (st : Starting) : s.At f (.startSend st) →
    Wrote s f (.sendStarted f st true) (State.startedFrame st)
  | attached (id : Text) (pid : UInt32) (lease : ℕ) : s.At f (.attachSend id pid lease) →
    Wrote s f (.sendAttached f id pid lease true) (State.attachedFrame id pid lease)
  | exited (id : Text) (note : ExitNotification) (result : Outcome) :
    s.watcher id = .notifying note result → note.frontendId = f →
    Wrote s f (.notifyExit id note result true) (State.exitedFrame id note)
  | output (id : Text) (out : Outgoing) : s.reader id = .checked out true →
    out.frontendId = f → State.willWrite out true →
    Wrote s f (.writeOutput id out true true) (State.outputFrame id out)

namespace State
variable {s : State} {f : ℕ}

theorem write_stream (s : State) (g : ℕ) (frame : Sent) (ok : Bool) (f : ℕ) :
    (s.write g frame ok).stream f =
      if ok ∧ g = f then s.stream f ++ [frame] else s.stream f := by
  unfold write
  by_cases hg : g = f
  · subst hg
    cases ok <;> simp
  · cases ok <;> simp [hg, Ne.symm hg]

theorem stream_step {l : Label} (hI : Leases s) (hen : s.enabled l) (f : ℕ) :
    (s.next l).stream f = s.stream f ∨ ∃ x, (s.next l).stream f = s.stream f ++ [x] ∧
      Wrote s f l x ∧ s.broken f = false ∧ (encodePayload x.message).length ≤ maxFrameLen := by
  cases l with
  | sendReply g m after ok =>
    have h : (s.next (.sendReply g m after ok)).stream f = _ := s.write_stream g ⟨m, .plain⟩ ok f
    rw [h]
    split_ifs with hok
    · obtain ⟨rfl, rfl⟩ := hok
      exact .inr ⟨_, rfl, .reply m after hen.1, hen.2.2 rfl⟩
    · exact .inl rfl
  | sendStarted g st ok =>
    have h : (s.next (.sendStarted g st ok)).stream f = _ := s.write_stream g (startedFrame st) ok f
    rw [h]
    split_ifs with hok
    · obtain ⟨rfl, rfl⟩ := hok
      exact .inr ⟨_, rfl, .started st hen.1, hen.2.2 rfl⟩
    · exact .inl rfl
  | sendAttached g id pid lease ok =>
    have h : (s.next (.sendAttached g id pid lease ok)).stream f = _ :=
      s.write_stream g (attachedFrame id pid lease) ok f
    rw [h]
    split_ifs with hok
    · obtain ⟨rfl, rfl⟩ := hok
      exact .inr ⟨_, rfl, .attached id pid lease hen.1, hen.2.2 rfl⟩
    · exact .inl rfl
  | notifyExit id note result ok =>
    have h : (s.next (.notifyExit id note result ok)).stream f = _ :=
      s.write_stream note.frontendId (exitedFrame id note) ok f
    rw [h]
    split_ifs with hok
    · obtain ⟨rfl, rfl⟩ := hok
      exact .inr ⟨_, rfl, .exited id note result hen.1 rfl, hen.2.2 rfl⟩
    · exact .inl rfl
  | writeOutput id out stillActive ok =>
    by_cases hw : willWrite out stillActive = true
    · have h : (s.next (.writeOutput id out stillActive ok)).stream f =
          (s.write out.frontendId (outputFrame id out) ok).stream f := by
        simp [next, writeOutput, hw, setWriterLock, setReader]
      rw [h, write_stream]
      split_ifs with hok
      · obtain ⟨rfl, rfl⟩ := hok
        obtain rfl : stillActive = true := by
          simp only [willWrite, Bool.and_eq_true] at hw
          exact hw.1
        exact .inr ⟨_, rfl, .output id out hen.1 rfl hw, hen.2 hw rfl⟩
      · exact .inl rfl
    · left
      simp [next, writeOutput, hw, setWriterLock, setReader]
  | receive g input around =>
    obtain ⟨-, -, -, -, -, hs, -⟩ := (s.receive_received g around input hen.2 hI.alive).rest
    exact .inl (congrFun hs f)
  | _ =>
    left
    simp only [next, greet, drawId, spawnAgent, insertSession, spawnWatcher, forget,
      spawnReader, checkStartable, claim, exitedFirst, finishStart,
      activateController, requestStop, stopGroup, completed, disconnectFrontend, setGroup,
      removeAfterAgentExit, reapGroup, finishCompletion, setReader,
      snapshotController, lockWriter, recheck, setPc, setHandler, setSession,
      setWatcher, openGate, setWriterLock]
    repeat' split
    all_goals rfl

end State

/-- The lease that a frame grants. -/
def Sent.grants (x : Sent) : Option Text :=
  match x.message with
  | .ptyStarted id _ _ | .ptyAttached id _ => some id
  | _ => none

/-- Whether a frame ends the lease on a session. -/
def Sent.ends (x : Sent) (id : Text) : Bool :=
  match x.message with
  | .ptyDetached | .ptyStopped => true
  | .ptyExited id' => id' = id
  | _ => false

namespace State

/-- The session whose lease the stream of `f` has granted last and not ended. -/
def openLease (s : State) (f : ℕ) : Option Text := holder Sent.grants Sent.ends (s.stream f)

/-- Nothing that `f` or its watcher is about to write takes the lease on `id` away. -/
def Keeps (s : State) (f : ℕ) (id : Text) : Prop :=
  s.sessions id ≠ none ∧
    match (s.handler f).pc with
    | .startSend _ | .attachSend .. => False
    | .replying m _ => m ≠ .ptyDetached ∧ m ≠ .ptyStopped
    | _ => True

theorem openLease_step {s : State} {l : Label} {f : ℕ} {id : Text} (hI : Leases s)
    (hen : s.enabled l) (h : s.openLease f = some id)
    (hkeeps : s.Keeps f id ∨ s.writerLock f ≠ none) : (s.next l).openLease f = some id := by
  rcases s.stream_step hI hen f with e | ⟨x, e, hw, -⟩
  · rw [openLease, e]
    exact h
  rw [openLease, e]
  cases hw with
  | reply m after hpc =>
    obtain ⟨hin, hk⟩ := hkeeps.resolve_right fun hlock => hlock hen.2.1
    have hpc : (s.handler f).pc = .replying m after := hpc
    have hat := hI.at_pc f
    simp only [hpc] at hk
    simp only [AtPc, hpc] at hat
    refine holder_concat_other h ?_ ?_ <;>
      cases m <;> simp_all [Sent.grants, Sent.ends, Message.IsReply]
  | started st hpc =>
    obtain ⟨hin, hk⟩ := hkeeps.resolve_right fun hlock => hlock hen.2.1
    have hpc : (s.handler f).pc = .startSend st := hpc
    simp [hpc] at hk
  | attached id pid lease hpc =>
    obtain ⟨hin, hk⟩ := hkeeps.resolve_right fun hlock => hlock hen.2.1
    have hpc : (s.handler f).pc = .attachSend id pid lease := hpc
    simp [hpc] at hk
  | exited id' note result hwatch hf =>
    obtain ⟨hin, -⟩ := hkeeps.resolve_right fun hlock => hlock (hf ▸ hen.2.1)
    refine holder_concat_other h rfl ?_
    have hgone : s.sessions id' = none := hI.session_of_watcher (by simp [hwatch]) (by simp [hwatch])
    have hne : id' ≠ id := by
      rintro rfl
      exact hin hgone
    simpa [Sent.ends, exitedFrame] using hne
  | output id' out _ _ _ => exact holder_concat_other h rfl rfl

/-- A step moves only the reader that it names. -/
theorem reader_frame {s : State} {l : Label} {id : Text} (hI : Leases s) (hen : s.enabled l)
    (hid : l.reads ≠ some id) : (s.next l).reader id = s.reader id := by
  cases l with
  | receive f input around =>
    exact congrFun (s.receive_received f around input hen.2 hI.alive).rest.2.2.1 id
  | _ =>
    simp only [Label.reads, ne_eq, Option.some.injEq, reduceCtorEq, not_false_eq_true] at hid
    simp only [next, greet, sendReply, drawId, spawnAgent, insertSession, spawnWatcher, forget,
      spawnReader, checkStartable, claim, exitedFirst, sendStarted, finishStart, sendAttached,
      activateController, requestStop, stopGroup, completed, disconnectFrontend, setGroup,
      removeAfterAgentExit, reapGroup, notifyExit, finishCompletion, setReader,
      snapshotController, lockWriter, recheck, writeOutput, setPc, setHandler, setSession,
      setWatcher, openGate, write, setWriterLock]
    repeat' split
    all_goals first | rfl | simp [Ne.symm hid]

/-- Only readers take the writer locks and give them back. -/
theorem writerLock_frame {s : State} {l : Label} (hI : Leases s) (hen : s.enabled l)
    (hl : (∀ id out, l ≠ .lockWriter id out) ∧ ∀ id out b ok, l ≠ .writeOutput id out b ok) :
    (s.next l).writerLock = s.writerLock := by
  cases l with
  | receive f input around =>
    exact (s.receive_received f around input hen.2 hI.alive).rest.2.2.2.1
  | lockWriter id out => exact absurd rfl (hl.1 id out)
  | writeOutput id out b ok => exact absurd rfl (hl.2 id out b ok)
  | _ =>
    simp only [next, greet, sendReply, drawId, spawnAgent, insertSession, spawnWatcher, forget,
      spawnReader, checkStartable, claim, exitedFirst, sendStarted, finishStart, sendAttached,
      activateController, requestStop, stopGroup, completed, disconnectFrontend, setGroup,
      removeAfterAgentExit, reapGroup, notifyExit, finishCompletion, setReader,
      snapshotController, recheck, setPc, setHandler, setSession, setWatcher, openGate, write]
    repeat' split
    all_goals rfl

end State

/-- The output for which a reader holds the writer's lock. -/
def Reader.holds : Reader → Option Outgoing
  | .holding out | .checked out _ => some out
  | _ => none

/-- Output says whose it is, and it stands inside that session's lease. -/
def InLease (pre : List Sent) (x : Sent) : Prop :=
  ∀ data, x.message = .ptyOutput data →
    ∃ id, x.mark = .bytesOf id ∧ holder Sent.grants Sent.ends pre = some id

structure Outputs (s : State) : Prop where
  active : ∀ id session c, s.sessions id = some session → session.controller = some c →
    c.active = true → s.openLease c.frontendId = some id
  started : ∀ f st, s.At f (.startFinish st true) → s.openLease f = some st.id
  attached : ∀ f id, s.At f (.attachActivate id) → s.sessions id ≠ none → s.openLease f = some id
  locked : ∀ id out, (s.reader id).holds = some out → s.writerLock out.frontendId = some id
  checked : ∀ id out, s.reader id = .checked out true → s.openLease out.frontendId = some id
  orderly : ∀ f, Orderly InLease (s.stream f)

namespace Outputs
variable {s : State} {l : Label}

theorem keeps_of_active (hI : Leases s) {id : Text} {session : Session} {c : Controller}
    (hs : s.sessions id = some session) (hc : session.controller = some c)
    (ha : c.active = true) : s.Keeps c.frontendId id := by
  refine ⟨by simp [hs], ?_⟩
  have hat := hI.at_pc c.frontendId
  have hl := hI.may id session c hs hc
  split
  · rename_i st hpc
    have hl := hl.resolve_left (by simp [hpc])
    simp only [State.AtPc, hpc] at hat
    obtain ⟨-, -, session', hs', hst⟩ := hat
    obtain rfl : st.id = id := by simpa [Handler.leased, hpc] using hl
    obtain rfl : session' = session := by simpa [hs'] using hs
    have e := congrArg Controller.active (Option.some.inj (hst.controller.symm.trans hc))
    simp [Handler.lease, ha] at e
  · rename_i id' pid lease hpc
    have hl := hl.resolve_left (by simp [hpc])
    simp only [State.AtPc, hpc] at hat
    obtain ⟨hctl, hst⟩ := hat
    obtain rfl : id' = id := by simpa [Handler.leased, hpc, hctl] using hl
    have e := congrArg Controller.active (Option.some.inj ((hst session hs).symm.trans hc))
    simp [Handler.lease, ha] at e
  · rename_i m after hpc
    have hl := hl.resolve_left (by simp [hpc])
    simp only [State.AtPc, hpc] at hat
    constructor
    all_goals
      rintro rfl
      simp [Handler.leased, hpc, hat.2] at hl
  · trivial

theorem started_step (h : Outputs s) (hI : Leases s) (hen : s.enabled l) (f : ℕ) (st : Starting)
    (hat' : (s.next l).At f (.startFinish st true)) : (s.next l).openLease f = some st.id := by
  have hpc' : ((s.next l).handler f).pc = .startFinish st true := hat'
  rcases hI.enters hen f with he | e
  · rw [hpc'] at he
    cases he with
    | sent _ _ =>
      have hstream : (s.next (.sendStarted f st true)).stream f =
          s.stream f ++ [State.startedFrame st] := by
        simpa [State.next, State.sendStarted, State.setHandler] using
          s.write_stream f (State.startedFrame st) true f
      rw [State.openLease, hstream]
      exact holder_concat_grant rfl
    | other hn => exact absurd trivial hn
  · have hpc : (s.handler f).pc = .startFinish st true := e.symm.trans hpc'
    refine State.openLease_step hI hen (h.started f st hpc) (.inl ⟨?_, by simp [hpc]⟩)
    have hat := hI.at_pc f
    simp only [State.AtPc, hpc] at hat
    obtain ⟨-, -, session, hs, -⟩ := hat
    simp [hs]

theorem attached_step (h : Outputs s) (hI : Leases s) (hen : s.enabled l) (f : ℕ) (id : Text)
    (hat' : (s.next l).At f (.attachActivate id)) (hs' : (s.next l).sessions id ≠ none) :
    (s.next l).openLease f = some id := by
  have hpc' : ((s.next l).handler f).pc = .attachActivate id := hat'
  rcases hI.enters hen f with he | e
  · rw [hpc'] at he
    cases he with
    | attached _ pid lease =>
      have hstream : (s.next (.sendAttached f id pid lease true)).stream f =
          s.stream f ++ [State.attachedFrame id pid lease] := by
        simpa [State.next, State.sendAttached, State.setPc] using
          s.write_stream f (State.attachedFrame id pid lease) true f
      rw [State.openLease, hstream]
      exact holder_concat_grant rfl
    | other hn => exact absurd trivial hn
  · have hpc : (s.handler f).pc = .attachActivate id := e.symm.trans hpc'
    have hat := hI.at_pc f
    simp only [State.AtPc, hpc] at hat
    have hs : s.sessions id ≠ none := by
      intro hn
      have hch := hI.changed hen id
      generalize hnew : (s.next l).sessions id = new at hch hs'
      cases hch with
      | inserted g pid resolved session _ _ _ =>
        have hpcg : (s.handler g).pc = .startInsert id pid resolved := hen
        have hu := (hI.unpublished g id (by simp [hpcg, Pc.unpublished])).1
        exact hu.controlled f hat.1
      | _ => simp_all
    exact State.openLease_step hI hen (h.attached f id hpc hs) (.inl ⟨hs, by simp [hpc]⟩)

theorem active_step (h : Outputs s) (hI : Leases s) (hen : s.enabled l) (id : Text)
    (session : Session) (c : Controller) (hs' : (s.next l).sessions id = some session)
    (hc' : session.controller = some c) (ha' : c.active = true) :
    (s.next l).openLease c.frontendId = some id := by
  -- The lease was open before the step, and the step does not write against it.
  have before : s.openLease c.frontendId = some id ∧ s.Keeps c.frontendId id := by
    have was {session' : Session} {c' : Controller} (hs : s.sessions id = some session')
        (hc : session'.controller = some c') (ha : c'.active = true) (hf : c'.frontendId = c.frontendId) :
        s.openLease c.frontendId = some id ∧ s.Keeps c.frontendId id :=
      ⟨hf ▸ h.active id session' c' hs hc ha, hf ▸ keeps_of_active hI hs hc ha⟩
    have inactive {h' : Handler} {f n : ℕ} (hc : session.controller = some (h'.lease f n)) : False := by
      have e := congrArg Controller.active (Option.some.inj (hc'.symm.trans hc))
      simp [Handler.lease, ha'] at e
    have hch := hI.changed hen id
    rw [hs'] at hch
    generalize hnew : some session = new at hch
    cases hch with
    | same _ => exact was hnew.symm hc' ha' rfl
    | inserted f pid resolved session' _ _ hst =>
      obtain rfl := Option.some.inj hnew
      exact (inactive hst.controller).elim
    | claimed f st session' _ _ hst =>
      obtain rfl := Option.some.inj hnew
      exact (inactive hst.controller).elim
    | announced f st session' hid hs hst =>
      obtain rfl := Option.some.inj hnew
      obtain rfl := Option.some.inj hc'
      subst hid
      have hpc : (s.handler f).pc = .startFinish st true := hen
      exact ⟨h.started f st hen, by simp [hs], by simp [Handler.lease, hpc]⟩
    | abandoned f st session' hid hs hst =>
      obtain rfl := Option.some.inj hnew
      exact (inactive rfl).elim
    | confirmed f input around session' hs _ _ =>
      obtain rfl := Option.some.inj hnew
      exact was hs hc' ha' rfl
    | attached f input around session' hs _ _ =>
      obtain rfl := Option.some.inj hnew
      exact (inactive rfl).elim
    | released f input around session' _ _ _ =>
      obtain rfl := Option.some.inj hnew
      simp [Session.release] at hc'
    | stopped f input around session' c' hs hc hf =>
      obtain rfl := Option.some.inj hnew
      obtain rfl := Option.some.inj hc'
      simp at ha'
    | activated f session' c' hs hc hf =>
      obtain rfl := Option.some.inj hnew
      obtain rfl := Option.some.inj hc'
      subst hf
      have hpc : (s.handler c'.frontendId).pc = .attachActivate id := hen
      exact ⟨h.attached _ id hen (by simp [hs]), by simp [hs], by simp [hpc]⟩
    | dropped f session' _ _ _ =>
      obtain rfl := Option.some.inj hnew
      simp [Session.release] at hc'
    | left _ _ _ _ _ _ => cases hnew
    | forgotten _ _ _ _ _ _ => cases hnew
    | lost _ _ _ _ => cases hnew
    | classified _ _ => cases hnew
  exact State.openLease_step hI hen before.1 (.inl before.2)

theorem locked_step (h : Outputs s) (hI : Leases s) (hen : s.enabled l) (id : Text)
    (out : Outgoing) (hout : ((s.next l).reader id).holds = some out) :
    (s.next l).writerLock out.frontendId = some id := by
  by_cases hl : l.reads = some id
  · cases l <;> simp only [Label.reads, Option.some.injEq, reduceCtorEq] at hl <;> subst hl
    case lockWriter out' =>
      obtain rfl : out' = out := by
        simpa [State.next, State.lockWriter, State.setReader, Reader.holds] using hout
      simp [State.next, State.lockWriter, State.setReader, State.setWriterLock]
    case recheck id out' =>
      obtain rfl : out' = out := by
        simpa [State.next, State.recheck, State.setReader, Reader.holds] using hout
      have hr : s.reader id = .holding out' := hen
      exact h.locked id out' (by simp [hr, Reader.holds])
    case spawnReader f st spawned =>
      cases spawned with
      | ok _ => simp [State.next, State.spawnReader, State.setReader, State.setPc, Reader.holds] at hout
      | error error => exact h.locked st.id out hout
    case snapshot chunk =>
      revert hout
      simp only [State.next, State.snapshotController, State.setReader, Function.update_self]
      split <;> simp [Reader.holds]
    all_goals simp [State.next, State.setReader, State.writeOutput, Reader.holds] at hout
  · rw [State.reader_frame hI hen hl] at hout
    have hlock := h.locked id out hout
    -- The lock is the reader's until it writes.
    cases l with
    | lockWriter id' out' =>
      have hne : out.frontendId ≠ out'.frontendId := by
        intro e
        have hfree := hen.2
        simp [← e, hlock] at hfree
      simpa [State.next, State.lockWriter, State.setReader, State.setWriterLock, hne] using hlock
    | writeOutput id' out' b ok =>
      have hlock' := h.locked id' out' (by simp [hen.1, Reader.holds])
      have hne : out.frontendId ≠ out'.frontendId := by
        intro e
        rw [e, hlock'] at hlock
        exact hl (by simpa [Label.reads] using hlock)
      have e : (s.next (.writeOutput id' out' b ok)).writerLock =
          Function.update s.writerLock out'.frontendId none := by
        simp only [State.next, State.writeOutput, State.setReader, State.setWriterLock]
        split <;> rfl
      simpa [e, hne] using hlock
    | _ =>
      rw [State.writerLock_frame hI hen (by simp)]
      exact hlock

theorem checked_step (h : Outputs s) (hI : Leases s) (hen : s.enabled l) (id : Text)
    (out : Outgoing) (hout : (s.next l).reader id = .checked out true) :
    (s.next l).openLease out.frontendId = some id := by
  -- Before the step the reader had the lock, and the lease was open.
  have before : s.openLease out.frontendId = some id ∧ s.writerLock out.frontendId ≠ none := by
    by_cases hl : l.reads = some id
    · cases l <;> simp only [Label.reads, Option.some.injEq, reduceCtorEq] at hl <;> subst hl
      case spawnReader f st spawned =>
        cases spawned with
        | ok _ => simp [State.next, State.spawnReader, State.setReader, State.setPc] at hout
        | error error =>
          have hr : s.reader st.id = .checked out true := hout
          exact ⟨h.checked st.id out hr, by simp [h.locked st.id out (by simp [hr, Reader.holds])]⟩
      case snapshot id chunk =>
        revert hout
        simp only [State.next, State.snapshotController, State.setReader, Function.update_self]
        split <;> simp
      case recheck id out' =>
        simp only [State.next, State.recheck, State.setReader, Function.update_self,
          Reader.checked.injEq] at hout
        obtain ⟨rfl, hactive⟩ := hout
        have hr : s.reader id = .holding out' := hen
        obtain ⟨c, hc, hf⟩ := (Option.any_eq_true _ _).mp hactive
        obtain ⟨hc, ha⟩ := Option.filter_eq_some_iff.mp hc
        obtain ⟨session, hs, hc⟩ := Option.bind_eq_some_iff.mp hc
        have hf : c.frontendId = out'.frontendId := by simpa using hf
        exact ⟨hf ▸ h.active id session c hs hc ha,
          by simp [h.locked id out' (by simp [hr, Reader.holds])]⟩
      all_goals simp [State.next, State.setReader, State.writeOutput, State.lockWriter] at hout
    · rw [State.reader_frame hI hen hl] at hout
      exact ⟨h.checked id out hout, by simp [h.locked id out (by simp [hout, Reader.holds])]⟩
  exact State.openLease_step hI hen before.1 (.inr before.2)

theorem orderly_step (h : Outputs s) (hI : Leases s) (hen : s.enabled l) (f : ℕ) :
    Orderly InLease ((s.next l).stream f) := by
  rcases s.stream_step hI hen f with e | ⟨x, e, hw, -⟩
  · exact e ▸ h.orderly f
  · rw [e, orderly_concat]
    refine ⟨h.orderly f, fun data hdata => ?_⟩
    cases hw with
    | output id out hr hf hwill => exact ⟨id, rfl, hf ▸ h.checked id out hr⟩
    | reply m after hpc =>
      have hpc : (s.handler f).pc = .replying m after := hpc
      have hat := hI.at_pc f
      simp only [State.AtPc, hpc] at hat
      obtain rfl : m = .ptyOutput data := hdata
      exact absurd hat.1 id
    | _ => simp [State.startedFrame, State.attachedFrame, State.exitedFrame] at hdata

theorem step (h : Outputs s) (hI : Leases s) (hen : s.enabled l) : Outputs (s.next l) where
  active := h.active_step hI hen
  started := h.started_step hI hen
  attached := h.attached_step hI hen
  locked := h.locked_step hI hen
  checked := h.checked_step hI hen
  orderly := h.orderly_step hI hen

end Outputs

theorem outputs_of_reachable {s : State} (h : (broker.restrict FreshIds).Reachable s) :
    Outputs s := by
  refine h.invariant (P := Outputs) ?_ fun t l ht hO hen => hO.step (leases_of_reachable ht) hen.1
  exact
    { active := fun id session c hs => by simp [broker, System.restrict, State.start] at hs
      started := fun f st hat => by
        simp only [broker, System.restrict, State.At, State.start] at hat
        split at hat <;> simp [Handler.new] at hat
      attached := fun f id _ hs => absurd rfl hs
      locked := fun id out hout => by
        simp [broker, System.restrict, State.start, Reader.holds] at hout
      checked := fun id out hout => by simp [broker, System.restrict, State.start] at hout
      orderly := fun f => orderly_nil _ }

/-- Every PtyOutput carries bytes of one session and stands behind a grant of its
lease on the stream, with neither another grant nor an end of the lease between them. -/
theorem output_in_lease {s : State} (h : (broker.restrict FreshIds).Reachable s) (f : ℕ)
    (pre post : List Sent) (x : Sent) (data : Text) (hstream : s.stream f = pre ++ x :: post)
    (hout : x.message = .ptyOutput data) :
    ∃ id, x.mark = .bytesOf id ∧ ∃ before grant between, pre = before ++ grant :: between ∧
      grant.grants = some id ∧ ∀ y ∈ between, y.grants = none ∧ y.ends id = false := by
  obtain ⟨id, hmark, hheld⟩ := (outputs_of_reachable h).orderly f pre x post hstream data hout
  exact ⟨id, hmark, grant_of_holder hheld⟩

-- the agent of `startRun` writes two bytes

def sampleOutgoing : Outgoing := ⟨[0x68, 0x69], 1, 4000⟩

def outputRun : List Label :=
  startRun ++ [.passGate sampleId, .readChunk sampleId [0x68, 0x69],
    .snapshot sampleId [0x68, 0x69], .lockWriter sampleId sampleOutgoing,
    .recheck sampleId sampleOutgoing, .writeOutput sampleId sampleOutgoing true true]

theorem output_in_lease_sample :
    ∃ before grant between,
      [⟨negotiate sampleHello, .plain⟩, State.startedFrame sampleStarting] =
        before ++ grant :: between ∧
      grant.grants = some sampleId ∧ ∀ y ∈ between, y.grants = none ∧ y.ends sampleId = false := by
  have hv : (broker.restrict FreshIds).Valid (broker.restrict FreshIds).init outputRun := by
    decide +kernel
  have hstream : ((broker.restrict FreshIds).run (broker.restrict FreshIds).init outputRun).stream 1 =
      [⟨negotiate sampleHello, .plain⟩, State.startedFrame sampleStarting] ++
        State.outputFrame sampleId sampleOutgoing :: [] := by
    decide +kernel
  obtain ⟨id, hmark, h⟩ := output_in_lease (System.Reachable.run .init outputRun hv) 1 _ [] _ _
    hstream rfl
  obtain rfl : sampleId = id := by simpa [State.outputFrame] using hmark
  exact h

end Winsmux.RemoteHelper
