import Winsmux.RemoteHelper.BrokerReach

/-!
# The life of a session

What one step can do to one session of the map, and from it how long a session
whose start is unconfirmed, or confirmed, stays there.
-/
namespace Winsmux.RemoteHelper
open Json Transition

/-- Everything a step can do to the session `id`; the last argument is what the map
holds after it. -/
inductive Changed (s : State) (id : Text) : Label → Option Session → Prop
  | same (l : Label) : Changed s id l (s.sessions id)
  | inserted (f : ℕ) (pid : UInt32) (resolved : Option Text) (session : Session) :
    s.sessions id = none → s.watcher id = .absent →
    session.Starting .pending ((s.handler f).lease f s.leases) →
    Changed s id (.insertSession f id pid resolved) (some session)
  | claimed (f : ℕ) (st : Starting) (session : Session) : st.id = id → s.sessions id = some session →
    session.Starting .pending ((s.handler f).lease f st.lease) →
    Changed s id (.claim f st) (some { session with writePhase := .writing })
  | announced (f : ℕ) (st : Starting) (session : Session) : st.id = id →
    s.sessions id = some session → session.Starting .writing ((s.handler f).lease f st.lease) →
    Changed s id (.finishStart f st true) (some { session with
      writePhase := .written
      startConfirmed := !(s.handler f).lifecycleEnabled
      controller := some { (s.handler f).lease f st.lease with active := true } })
  | abandoned (f : ℕ) (st : Starting) (session : Session) : st.id = id →
    s.sessions id = some session → session.Starting .writing ((s.handler f).lease f st.lease) →
    Changed s id (.finishStart f st false) (some { session with
      writePhase := .abandoned
      controller := some ((s.handler f).lease f st.lease) })
  | confirmed (f : ℕ) (input : Input) (around : Surroundings) (session : Session) :
    s.sessions id = some session → session.writePhase = .written → session.controlledBy f →
    Changed s id (.receive f input around) (some { session with startConfirmed := true })
  | attached (f : ℕ) (input : Input) (around : Surroundings) (session : Session) :
    s.sessions id = some session → session.controller = none →
    ((s.next (.receive f input around)).handler f).pc = .attachSend id session.childPid s.leases →
    Changed s id (.receive f input around)
      (some { session with controller := some ((s.handler f).lease f s.leases) })
  | left (f : ℕ) (input : Input) (around : Surroundings) (session : Session) :
    s.sessions id = some session → session.unconfirmedBy f →
    Changed s id (.receive f input around) none
  | released (f : ℕ) (input : Input) (around : Surroundings) (session : Session) :
    s.sessions id = some session → session.controlledBy f → ¬ session.unconfirmedBy f →
    Changed s id (.receive f input around) (some session.release)
  | stopped (f : ℕ) (input : Input) (around : Surroundings) (session : Session) (c : Controller) :
    s.sessions id = some session → session.controller = some c → c.frontendId = f →
    Changed s id (.receive f input around) (some { session with
      controller := some { c with active := false }, stopInFlight := true })
  | activated (f : ℕ) (session : Session) (c : Controller) : s.sessions id = some session →
    session.controller = some c → c.frontendId = f →
    Changed s id (.activate f id)
      (some { session with controller := some { c with active := true } })
  | forgotten (f : ℕ) (error : Text) (session : Session) (lease : ℕ) : s.sessions id = some session →
    session.Starting .pending ((s.handler f).lease f lease) →
    Changed s id (.forget f id error) none
  | lost (f : ℕ) (session : Session) : s.sessions id = some session → session.unconfirmedBy f →
    Changed s id (.disconnect f) none
  | dropped (f : ℕ) (session : Session) : s.sessions id = some session → session.controlledBy f →
    ¬ session.unconfirmedBy f → Changed s id (.disconnect f) (some session.release)
  | classified (session : Session) : s.sessions id = some session →
    Changed s id (.classify id) none

/-- A step that changes the map at one id. -/
theorem Changed.update {s : State} {id id' : Text} {l : Label} {new : Option Session}
    (h : Changed s id' l new) : Changed s id l (Function.update s.sessions id' new id) := by
  by_cases hid : id = id'
  · subst hid
    simpa using h
  · simpa [hid] using (Changed.same l : Changed s id l _)

/-- The places of a handler where its session is in a state of its own. -/
def Pc.Noted : Pc → Prop
  | .startInsert .. | .startWatcher _ | .startFinish .. | .attachSend .. | .attachActivate _ => True
  | _ => False

/-- How a handler comes to such a place, and that it comes to others besides. -/
inductive Enters (s : State) (f : ℕ) : Label → Pc → Prop
  | spawned (id : Text) (pid : UInt32) (resolved : Option Text) (cleaned : Bool) :
    Enters s f (.spawnAgent f id resolved (.ok pid) cleaned) (.startInsert id pid resolved)
  | inserted (id : Text) (pid : UInt32) (resolved : Option Text) :
    Enters s f (.insertSession f id pid resolved) (.startWatcher ⟨id, pid, resolved, s.leases⟩)
  | sent (st : Starting) (ok : Bool) : Enters s f (.sendStarted f st ok) (.startFinish st ok)
  | attached (id : Text) (pid : UInt32) (lease : ℕ) :
    Enters s f (.sendAttached f id pid lease true) (.attachActivate id)
  | attaching (id : Text) (input : Input) (around : Surroundings) (session : Session) :
    s.sessions id = some session → session.controller = none →
    (s.handler f).controlledSession = none →
    Enters s f (.receive f input around) (.attachSend id session.childPid s.leases)
  | other {l : Label} {pc : Pc} : ¬ pc.Noted → Enters s f l pc

namespace Leases
variable {s : State}

theorem received_enters {f : ℕ} {input : Input} {around : Surroundings} {s' : State}
    (h : s.Received f s') : Enters s f (.receive f input around) (s'.handler f).pc := by
  cases h with
  | answer pc controlled _ hq =>
    refine .other ?_
    simp only [State.setHandler, Function.update_self]
    cases pc <;> simp_all [State.Quiet, Pc.Noted]
  | attach id session hs hc hcon =>
    simpa [State.setHandler] using Enters.attaching id input around session hs hcon hc
  | _ => exact .other (by simp [State.setHandler, State.setPc, Pc.Noted])

theorem not_noted_reapNext (rest : List Text) : ¬ (State.reapNext rest).Noted := by
  cases rest <;> exact fun h => h

/-- A step leaves a handler where it is or brings it to one of these places. -/
theorem enters (hI : Leases s) {l : Label} (hen : s.enabled l) (f : ℕ) :
    Enters s f l ((s.next l).handler f).pc ∨ ((s.next l).handler f).pc = (s.handler f).pc := by
  by_cases ha : l.actor = some f
  · cases l with
    | receive g input around =>
      obtain rfl : g = f := by simpa [Label.actor] using ha
      exact .inl (received_enters (s.receive_received g around input hen.2 hI.alive))
    | spawnAgent g id resolved spawned cleaned =>
      obtain rfl : g = f := by simpa [Label.actor] using ha
      left
      simp only [State.next, State.spawnAgent]
      repeat' split
      all_goals simp only [State.setPc, Function.update_self]
      · exact .other fun h => h
      · exact .other fun h => h
      · exact .other fun h => h
      · exact .spawned id _ resolved cleaned
    | insertSession g id pid resolved =>
      obtain rfl : g = f := by simpa [Label.actor] using ha
      simpa [State.next, State.insertSession, State.setPc] using
        Or.inl (Enters.inserted (s := s) id pid resolved)
    | sendStarted g st ok =>
      obtain rfl : g = f := by simpa [Label.actor] using ha
      simpa [State.next, State.sendStarted, State.setHandler] using
        Or.inl (Enters.sent (s := s) st ok)
    | sendAttached g id pid lease ok =>
      obtain rfl : g = f := by simpa [Label.actor] using ha
      left
      simp only [State.next, State.sendAttached, State.setPc, Function.update_self]
      cases ok
      · exact .other fun h => h
      · exact .attached id pid lease
    | _ =>
      simp only [Label.actor, Option.some.injEq, reduceCtorEq] at ha <;> subst ha
      all_goals
        simp only [State.next, State.greet, State.sendReply, State.drawId, State.spawnWatcher,
          State.forget, State.spawnReader, State.checkStartable, State.claim, State.exitedFirst,
          State.finishStart, State.activateController, State.requestStop, State.completed,
          State.disconnectFrontend]
        repeat' split
        all_goals
          simp only [State.setPc, State.setHandler, State.setGroup, State.setSession,
            State.setWatcher, State.setReader, State.openGate, Function.update_self, reject]
        all_goals first
          | exact .inr trivial
          | exact .inl (.other fun h => h)
          | exact .inl (.other (not_noted_reapNext _))
  · by_cases hacc : l = .accept
    · subst hacc
      by_cases hf : f = s.nextFrontendId
      · exact .inl (.other (by simp [State.next, State.setHandler, hf, Handler.new, Pc.Noted]))
      · exact .inr (by simp [State.next, State.setHandler, hf])
    · exact .inr (by rw [State.handler_frame hI hen ha (fun e => absurd e hacc)])

theorem received_changed {f : ℕ} {input : Input} {around : Surroundings} {s' : State} (id : Text)
    (hs' : s.next (.receive f input around) = s') (h : s.Received f s') :
    Changed s id (.receive f input around) (s'.sessions id) := by
  cases h with
  | answer pc controlled _ _ => exact .same _
  | ack id' session hs hphase hc hcon =>
    exact (Changed.confirmed f input around session hs hphase hcon).update
  | attach id' session hs hc hcon =>
    refine (Changed.attached f input around session hs hcon ?_).update
    rw [hs']
    simp [State.setHandler]
  | abandon id' session hs hc hun => exact (Changed.left f input around session hs hun).update
  | release id' session hs hc hcon hun =>
    exact (Changed.released f input around session hs hcon hun).update
  | stop id' session c hs hc hcon hf =>
    exact (Changed.stopped f input around session c hs hcon hf).update

theorem claim_changed (hI : Leases s) {f : ℕ} {st : Starting} (hpc : s.At f (.startClaim st))
    (id : Text) : Changed s id (.claim f st) ((s.claim f st).sessions id) := by
  have hpc : (s.handler f).pc = .startClaim st := hpc
  have hat := hI.at_pc f
  simp only [State.AtPc, hpc] at hat
  obtain ⟨-, -, hst⟩ := hat
  unfold State.claim
  split
  · rename_i session hs
    have hst := hst session hs
    rw [if_neg (by simp [hst.writePhase, hst.agentExited])]
    exact (Changed.claimed f st session rfl hs hst).update
  · exact .same _

theorem finishStart_changed (hI : Leases s) {f : ℕ} {st : Starting} {written : Bool}
    (hpc : s.At f (.startFinish st written)) (id : Text) :
    Changed s id (.finishStart f st written) ((s.finishStart f st written).sessions id) := by
  have hpc : (s.handler f).pc = .startFinish st written := hpc
  have hat := hI.at_pc f
  simp only [State.AtPc, hpc] at hat
  obtain ⟨-, -, session, hs, hst⟩ := hat
  have hs' : (s.openGate st.id).sessions st.id = some session := hs
  unfold State.finishStart
  simp only [hs', hst.controller, Option.map_some]
  cases written with
  | true =>
    have h : Changed s id _ _ := (Changed.announced f st session rfl hs hst).update
    simpa [State.openGate, State.setSession, State.setPc, Handler.lease] using h
  | false => exact (Changed.abandoned f st session rfl hs hst).update

theorem disconnect_changed {f : ℕ} (id : Text) :
    Changed s id (.disconnect f) ((s.disconnectFrontend f).sessions id) := by
  show Changed s id (.disconnect f) ((s.sessions id).bind (State.afterDisconnect f))
  cases hs : s.sessions id with
  | none => simpa [hs] using (Changed.same (.disconnect f) : Changed s id _ _)
  | some session =>
    cases h : State.afterDisconnect f session with
    | none =>
      rw [Option.bind_some, h]
      refine .lost f session hs ?_
      by_contra hun
      unfold State.afterDisconnect at h
      rw [if_neg hun] at h
      split_ifs at h
    | some session' =>
      rw [Option.bind_some, h]
      obtain ⟨-, rfl⟩ | ⟨hcon, hun, rfl⟩ := afterDisconnect_eq h
      · exact hs ▸ (Changed.same (.disconnect f) : Changed s id _ _)
      · exact .dropped f session hs hcon (by simp [hun])

theorem changed (hI : Leases s) {l : Label} (hen : s.enabled l) (id : Text) :
    Changed s id l ((s.next l).sessions id) := by
  cases l with
  | accept => exact .same _
  | greet f input =>
    show Changed s id _ ((s.greet f input).sessions id)
    unfold State.greet
    split <;> try split
    all_goals exact .same _
  | receive f input around =>
    exact received_changed id rfl (s.receive_received f around input hen.2 hI.alive)
  | drawId f resolved bytes =>
    show Changed s id _ ((s.drawId f resolved bytes).sessions id)
    unfold State.drawId
    dsimp only
    split_ifs <;> exact .same _
  | spawnAgent f id' resolved spawned cleaned =>
    show Changed s id _ ((s.spawnAgent f id' resolved spawned cleaned).sessions id)
    unfold State.spawnAgent
    split
    · exact .same _
    dsimp only
    split_ifs <;> exact .same _
  | insertSession f id' pid resolved =>
    have hpc : (s.handler f).pc = .startInsert id' pid resolved := hen
    obtain ⟨hu, -⟩ := hI.unpublished f id' (by simp [hpc, Pc.unpublished])
    exact (Changed.inserted f pid resolved _ hu.session hu.watcher
      ⟨rfl, rfl, rfl, rfl, rfl, rfl⟩).update
  | spawnWatcher f st spawned cleaned =>
    show Changed s id _ ((s.spawnWatcher f st spawned cleaned).sessions id)
    unfold State.spawnWatcher
    split <;> exact .same _
  | forget f id' error =>
    have hpc : (s.handler f).pc = .startForget id' error := hen
    have hat := hI.at_pc f
    simp only [State.AtPc, hpc] at hat
    obtain ⟨-, -, session, lease, hs, hst⟩ := hat
    exact (Changed.forgotten f error session lease hs hst).update
  | spawnReader f st spawned =>
    show Changed s id _ ((s.spawnReader f st spawned).sessions id)
    unfold State.spawnReader
    split <;> exact .same _
  | checkStartable f st =>
    show Changed s id _ ((s.checkStartable f st).sessions id)
    unfold State.checkStartable
    split_ifs <;> exact .same _
  | claim f st => exact hI.claim_changed hen id
  | finishStart f st written => exact hI.finishStart_changed hen id
  | activate f id' =>
    have hpc : (s.handler f).pc = .attachActivate id' := hen
    have hat := hI.at_pc f
    simp only [State.AtPc, hpc] at hat
    show Changed s id _ ((s.activateController f id').sessions id)
    unfold State.activateController
    split
    · exact .same _
    rename_i session hs
    obtain ⟨c, hcon, hf⟩ := hI.must f id' session (by simpa [Handler.leased, hpc] using hat.1) hs
    have h : Changed s id _ _ := (Changed.activated f session c hs hcon hf).update
    simpa [State.setSession, State.setPc, hcon, hf] using h
  | signal f id' cause ok =>
    show Changed s id _ ((s.requestStop f id' cause ok).sessions id)
    unfold State.requestStop
    split_ifs
    · exact .same _
    · cases cause <;> exact .same _
  | completed f id' cause result =>
    show Changed s id _ ((s.completed f cause result).sessions id)
    unfold State.completed
    cases cause with
    | detach => cases result <;> exact .same _
    | _ => exact .same _
  | disconnect f => exact disconnect_changed id
  | classify id' =>
    cases hs : s.sessions id' with
    | none =>
      have h : Function.update s.sessions id' none id = s.sessions id := by
        by_cases hid : id = id'
        · simp [hid, hs]
        · simp [hid]
      show Changed s id _ (Function.update s.sessions id' none id)
      rw [h]
      exact .same _
    | some session => exact (Changed.classified session hs).update
  | writeOutput id' out stillActive ok =>
    show Changed s id _ ((s.writeOutput id' out stillActive ok).sessions id)
    unfold State.writeOutput
    split_ifs <;> exact .same _
  | _ => exact .same _

/-- A confirmed session stays confirmed and leaves the map only when its watcher
classifies its agent's exit. -/
theorem confirmed_step (hI : Leases s) {l : Label} (hen : s.enabled l) {id : Text}
    {session : Session} (hs : s.sessions id = some session) (hc : session.startConfirmed = true) :
    (∃ session', (s.next l).sessions id = some session' ∧ session'.startConfirmed = true) ∨
      l = .classify id ∧ s.group id = .exited := by
  have not_unconfirmed (f : ℕ) : ¬ session.unconfirmedBy f = true := fun h => by
    simp [(Session.unconfirmedBy_iff.mp h).1.2] at hc
  have not_starting (phase : WritePhase) (c : Controller) : ¬ session.Starting phase c := fun h => by
    simp [h.startConfirmed] at hc
  have eq {session' : Session} (h : s.sessions id = some session') : session' = session := by
    simpa [hs, eq_comm] using h
  have h := hI.changed hen id
  generalize (s.next l).sessions id = new at h
  cases h with
  | same _ => exact .inl ⟨session, hs, hc⟩
  | inserted _ _ _ _ hnone => simp [hs] at hnone
  | claimed _ _ _ _ hs' hst => exact absurd (eq hs' ▸ hst) (not_starting _ _)
  | announced _ _ _ _ hs' hst => exact absurd (eq hs' ▸ hst) (not_starting _ _)
  | abandoned _ _ _ _ hs' hst => exact absurd (eq hs' ▸ hst) (not_starting _ _)
  | confirmed _ _ _ _ _ _ _ => exact .inl ⟨_, rfl, rfl⟩
  | attached _ _ _ _ hs' _ _ => exact .inl ⟨_, rfl, eq hs' ▸ hc⟩
  | left f _ _ _ hs' hun => exact absurd (eq hs' ▸ hun) (not_unconfirmed f)
  | released _ _ _ _ hs' _ _ => exact .inl ⟨_, rfl, eq hs' ▸ hc⟩
  | stopped _ _ _ _ _ hs' _ _ => exact .inl ⟨_, rfl, eq hs' ▸ hc⟩
  | activated _ _ _ hs' _ _ => exact .inl ⟨_, rfl, eq hs' ▸ hc⟩
  | forgotten _ _ _ _ hs' hst => exact absurd (eq hs' ▸ hst) (not_starting _ _)
  | lost f _ hs' hun => exact absurd (eq hs' ▸ hun) (not_unconfirmed f)
  | dropped _ _ hs' _ _ => exact .inl ⟨_, rfl, eq hs' ▸ hc⟩
  | classified _ _ => exact .inr ⟨rfl, hen.2.1⟩

/-- A session that has left the map, its watcher spawned, does not come back. -/
theorem gone_step (hI : Leases s) {l : Label} (hen : s.enabled l) {id : Text}
    (hs : s.sessions id = none) (hw : s.watcher id ≠ .absent) : (s.next l).sessions id = none := by
  have h := hI.changed hen id
  generalize (s.next l).sessions id = new at h
  cases h <;> simp_all

end Leases

/-- The id whose agent a start has spawned and not yet given a watcher. -/
def Pc.spawned : Pc → Option Text
  | .startInsert id _ _ => some id
  | .startWatcher st => some st.id
  | _ => none

/-- Every watcher waits for an agent that was spawned. -/
structure Spawned (s : State) : Prop where
  handler : ∀ f id, (s.handler f).pc.spawned = some id → s.group id ≠ .absent
  watcher : ∀ id, s.watcher id ≠ .absent → s.group id ≠ .absent

namespace Spawned
variable {s : State} {l : Label}

theorem group_step (hI : Leases s) (hen : s.enabled l) {id : Text} (hg : s.group id ≠ .absent) :
    (s.next l).group id ≠ .absent := by
  by_cases hl : l.agent = some id
  · cases l <;> simp only [Label.agent, Option.some.injEq, reduceCtorEq] at hl <;> subst hl <;>
      simp only [State.next, State.spawnAgent, State.spawnWatcher, State.requestStop,
        State.stopGroup, State.setGroup, State.setPc, State.removeAfterAgentExit, State.reapGroup,
        State.notifyExit, State.finishCompletion, State.setWatcher, State.setSession, State.write]
    all_goals repeat' split
    all_goals simp_all
  · rwa [(State.agent_frame hI hen hl).2]

theorem handler_step (hI : Leases s) (hen : s.enabled l) {f : ℕ} {id : Text}
    (h : ((s.next l).handler f).pc.spawned = some id) :
    (s.handler f).pc.spawned = some id ∨ (s.next l).group id = .running := by
  rcases hI.enters hen f with he | e
  · generalize hpc' : ((s.next l).handler f).pc = pc' at h he
    cases he with
    | spawned id' pid resolved cleaned =>
      obtain rfl : id' = id := by simpa [Pc.spawned] using h
      right
      revert hpc'
      simp only [State.next, State.spawnAgent]
      split_ifs <;> simp [State.setPc, State.setGroup]
    | inserted id' pid resolved =>
      have hpc : (s.handler f).pc = .startInsert id' pid resolved := hen
      left
      simpa [hpc, Pc.spawned] using h
    | sent _ _ => simp [Pc.spawned] at h
    | attached _ _ _ => simp [Pc.spawned] at h
    | attaching _ _ _ _ _ _ _ => simp [Pc.spawned] at h
    | other hother =>
      cases pc' <;> simp_all [Pc.spawned, Pc.Noted]
  · exact .inl (e ▸ h)

theorem step (h : Spawned s) (hI : Leases s) (hen : s.enabled l) : Spawned (s.next l) where
  handler f id hid := by
    rcases handler_step hI hen hid with h' | h'
    · exact group_step hI hen (h.handler f id h')
    · simp [h']
  watcher id hw := by
    by_cases hl : l.agent = some id
    · refine group_step hI hen ?_
      cases l with
      | spawnWatcher g st spawned cleaned =>
        obtain rfl : st.id = id := by simpa [Label.agent] using hl
        have hpc : (s.handler g).pc = .startWatcher st := hen
        exact h.handler g st.id (by simp [hpc, Pc.spawned])
      | spawnAgent g id' resolved spawned cleaned =>
        refine h.watcher id ?_
        revert hw
        simp only [State.next, State.spawnAgent]
        repeat' split
        all_goals exact fun h => h
      | signal g id' cause ok =>
        refine h.watcher id ?_
        revert hw
        simp only [State.next, State.requestStop, State.stopGroup]
        repeat' split
        all_goals exact fun h => h
      | agentExit id' => exact h.watcher id hw
      | agentKilled id' => exact h.watcher id hw
      | classify id' =>
        obtain rfl : id' = id := by simpa [Label.agent] using hl
        exact h.watcher id' (by simp [hen.1])
      | reapGroup id' note result =>
        obtain rfl : id' = id := by simpa [Label.agent] using hl
        have hw' : s.watcher id' = .reaping note := hen
        exact h.watcher id' (by simp [hw'])
      | notifyExit id' note result ok =>
        obtain rfl : id' = id := by simpa [Label.agent] using hl
        exact h.watcher id' (by simp [hen.1])
      | finish id' result guardian =>
        obtain rfl : id' = id := by simpa [Label.agent] using hl
        have hw' : s.watcher id' = .finishing result := hen
        exact h.watcher id' (by simp [hw'])
      | _ => simp [Label.agent] at hl
    · rw [(State.agent_frame hI hen hl).1] at hw
      exact group_step hI hen (h.watcher id hw)

end Spawned

/-- The threads that the reaping of a session waits for. -/
inductive Helper where
  | signal
  | kill
  | classify
  | reap

def Helper.steps (f : ℕ) (id : Text) : Helper → Set Label
  | .signal => {l | ∃ cause ok, l = .signal f id cause ok}
  | .kill => {.agentKilled id}
  | .classify => {.classify id}
  | .reap => {l | ∃ note result, l = .reapGroup id note result}

theorem Helper.agent_of_mem {h : Helper} {f : ℕ} {id : Text} {l : Label} (hl : l ∈ h.steps f id) :
    l.agent = some id := by
  cases h with
  | signal =>
    obtain ⟨cause, ok, rfl⟩ := hl
    rfl
  | kill =>
    obtain rfl : l = .agentKilled id := hl
    rfl
  | classify =>
    obtain rfl : l = .classify id := hl
    rfl
  | reap =>
    obtain ⟨note, result, rfl⟩ := hl
    rfl

/-- The next thread to move, from the group and its watcher. -/
def helperOf (s : State) (id : Text) : Helper :=
  match s.watcher id with
  | .reaping _ => .reap
  | _ =>
    match s.group id with
    | .running => .signal
    | .signalled => .kill
    | _ => .classify

def Helper.rank : Helper → ℕ
  | .signal => 3
  | .kill => 2
  | .classify => 1
  | .reap => 0

/-- Out of the map, and the handler `f` has still to stop the group or has done so. -/
structure GivenUp (s : State) (f : ℕ) (id : Text) : Prop where
  session : s.sessions id = none
  group : s.watcher id = .waiting ∧ (s.group id = .running ∧ (∃ cause, s.At f (.signalling id cause)) ∨
    s.group id = .signalled ∨ s.group id = .exited) ∨ ∃ note, s.watcher id = .reaping note

namespace GivenUp
variable {s : State} {f : ℕ} {id : Text}

theorem enabled (h : GivenUp s f id) :
    ∃ l ∈ (helperOf s id).steps f id, s.enabled l ∧ FreshIds s l ∧ SignalsSucceed s l := by
  obtain ⟨hw, ⟨hr, cause, hpc⟩ | hr | hr⟩ | ⟨note, hw⟩ := h.group
  · exact ⟨.signal f id cause true, by simp [helperOf, hw, hr, Helper.steps], hpc, trivial, rfl⟩
  · exact ⟨.agentKilled id, by simp [helperOf, hw, hr, Helper.steps], hr, trivial, trivial⟩
  · refine ⟨.classify id, by simp [helperOf, hw, hr, Helper.steps], ⟨hw, hr, ?_⟩, trivial, trivial⟩
    simp [State.announced, h.session]
  · exact ⟨.reapGroup id note (.ok ()), by simp [helperOf, hw, Helper.steps], hw, trivial, rfl⟩

theorem watched (h : GivenUp s f id) : s.watcher id ≠ .absent := by
  obtain ⟨hw, -⟩ | ⟨note, hw⟩ := h.group <;> simp [hw]

/-- Either the next helper is a later one, or nothing has moved and the step was
not the helper's. -/
def Nearer (s s' : State) (f : ℕ) (id : Text) (l : Label) : Prop :=
  GivenUp s' f id ∧ ((helperOf s' id).rank < (helperOf s id).rank ∨
    helperOf s' id = helperOf s id ∧ l ∉ (helperOf s id).steps f id)

/-- Steps that move neither the group nor its watcher. -/
theorem same {l : Label} (h : GivenUp s f id) (hI : Leases s) (hen : s.enabled l)
    (hw : (s.next l).watcher id = s.watcher id) (hgr : (s.next l).group id = s.group id)
    (hl : l ∉ (helperOf s id).steps f id) : Nearer s (s.next l) f id l := by
  refine ⟨⟨hI.gone_step hen h.session h.watched, ?_⟩, .inr ⟨by simp [helperOf, hw, hgr], hl⟩⟩
  rw [hw, hgr]
  obtain ⟨hwait, ⟨hr, cause, hat⟩ | hr⟩ | hr := h.group
  · refine .inl ⟨hwait, .inl ⟨hr, cause, State.signalling_frame hI hat hen fun ok e => hl ?_⟩⟩
    simp only [helperOf, hwait, hr, Helper.steps, Set.mem_ofPred_eq]
    exact ⟨cause, ok, e⟩
  · exact .inl ⟨hwait, .inr hr⟩
  · exact .inr hr

/-- Once the watcher is reaping, only its own step counts. -/
theorem reaping {l : Label} {note : Option ExitNotification} (h : GivenUp s f id) (hI : Leases s)
    (hen : s.enabled l) (hreap : s.watcher id = .reaping note)
    (hw : (s.next l).watcher id = s.watcher id) (hl : ∀ note result, l ≠ .reapGroup id note result) :
    Nearer s (s.next l) f id l := by
  refine ⟨⟨hI.gone_step hen h.session h.watched, .inr ⟨note, hw.trans hreap⟩⟩,
    .inr ⟨by simp [helperOf, hw, hreap], ?_⟩⟩
  simp only [helperOf, hreap]
  rintro ⟨note, result, e⟩
  exact hl note result e

/-- The agent is gone while its watcher waits for it. -/
theorem exit {l : Label} (h : GivenUp s f id) (hI : Leases s) (hen : s.enabled l)
    (hw : (s.next l).watcher id = s.watcher id) (hgr : (s.next l).group id = .exited)
    (hr : s.group id = .running ∨ s.group id = .signalled)
    (hl : ∀ note result, l ≠ .reapGroup id note result) : Nearer s (s.next l) f id l := by
  obtain ⟨hwait, -⟩ | ⟨note, hreap⟩ := h.group
  · refine ⟨⟨hI.gone_step hen h.session h.watched, .inl ⟨hw.trans hwait, .inr (.inr hgr)⟩⟩, .inl ?_⟩
    rcases hr with hr | hr <;> simp [helperOf, hw, hwait, hgr, hr, Helper.rank]
  · exact h.reaping hI hen hreap hw hl

theorem step (h : GivenUp s f id) (hI : Leases s) {l : Label} (hen : s.enabled l)
    (hok : SignalsSucceed s l) (hg : (s.next l).group id ≠ .reaped) :
    Nearer s (s.next l) f id l := by
  by_cases hl : l.agent = some id
  · have hsession := hI.gone_step hen h.session h.watched
    cases l with
    | spawnAgent g id' resolved spawned cleaned =>
      obtain rfl : id' = id := by simpa [Label.agent] using hl
      have hpc : (s.handler g).pc = .startSpawn id' resolved := hen.1
      have hu := (hI.unpublished g id' (by simp [hpc, Pc.unpublished])).1
      exact absurd hu.watcher h.watched
    | spawnWatcher g st spawned cleaned =>
      obtain rfl : st.id = id := by simpa [Label.agent] using hl
      have hpc : (s.handler g).pc = .startWatcher st := hen
      have hat := hI.at_pc g
      simp only [State.AtPc, hpc] at hat
      exact absurd hat.2.1 h.watched
    | signal g id' cause ok =>
      obtain rfl : id' = id := by simpa [Label.agent] using hl
      obtain rfl : ok = true := hok
      have hw : (s.next (.signal g id' cause true)).watcher id' = s.watcher id' := by
        simp [State.next, State.requestStop, State.stopGroup, State.setPc, State.setGroup]
      obtain ⟨hwait, ⟨hr, -⟩ | hr⟩ | ⟨note, hreap⟩ := h.group
      · have hgr : (s.next (.signal g id' cause true)).group id' = .signalled := by
          simp [State.next, State.requestStop, State.stopGroup, State.setPc, State.setGroup, hr]
        refine ⟨⟨hsession, .inl ⟨hw.trans hwait, .inr (.inl hgr)⟩⟩, .inl ?_⟩
        simp [helperOf, hw, hwait, hr, hgr, Helper.rank]
      · have hgr : (s.next (.signal g id' cause true)).group id' = s.group id' := by
          rcases hr with hr | hr <;>
            simp [State.next, State.requestStop, State.stopGroup, State.setPc, State.setGroup, hr]
        refine h.same hI hen hw hgr ?_
        rcases hr with hr | hr <;> simp [helperOf, hwait, hr, Helper.steps]
      · exact h.reaping hI hen hreap hw (by simp)
    | agentExit id' =>
      obtain rfl : id' = id := by simpa [Label.agent] using hl
      exact h.exit hI hen rfl (by simp [State.next, State.setGroup]) (.inl hen) (by simp)
    | agentKilled id' =>
      obtain rfl : id' = id := by simpa [Label.agent] using hl
      exact h.exit hI hen rfl (by simp [State.next, State.setGroup]) (.inr hen) (by simp)
    | classify id' =>
      obtain rfl : id' = id := by simpa [Label.agent] using hl
      have hw : (s.next (.classify id')).watcher id' =
          .reaping ((s.sessions id').bind State.exitNotification) := by
        simp [State.next, State.removeAfterAgentExit, State.setWatcher, State.setSession]
      refine ⟨⟨hsession, .inr ⟨_, hw⟩⟩, .inl ?_⟩
      simp [helperOf, hw, hen.1, hen.2.1, Helper.rank]
    | reapGroup id' note result =>
      obtain rfl : id' = id := by simpa [Label.agent] using hl
      obtain rfl : result = .ok () := hok
      exact absurd (by simp [State.next, State.reapGroup, State.setWatcher, State.setGroup]) hg
    | notifyExit id' note result ok =>
      obtain rfl : id' = id := by simpa [Label.agent] using hl
      have hw : s.watcher id' = .notifying note result := hen.1
      obtain ⟨hw', -⟩ | ⟨note, hw'⟩ := h.group <;> simp [hw] at hw'
    | finish id' result guardian =>
      obtain rfl : id' = id := by simpa [Label.agent] using hl
      have hw : s.watcher id' = .finishing result := hen
      obtain ⟨hw', -⟩ | ⟨note, hw'⟩ := h.group <;> simp [hw] at hw'
    | _ => simp [Label.agent] at hl
  · obtain ⟨hw, hgr⟩ := State.agent_frame hI hen hl
    exact h.same hI hen hw hgr fun hmem => hl (Helper.agent_of_mem hmem)

end GivenUp

/-- The broker while signals to process groups succeed. -/
def signallingBroker : System State Label :=
  broker.restrict fun s l => FreshIds s l ∧ SignalsSucceed s l

instance (s : State) (l : Label) : Decidable (signallingBroker.enabled s l) :=
  inferInstanceAs (Decidable (broker.enabled s l ∧ FreshIds s l ∧ SignalsSucceed s l))

theorem fresh_of_signalling {s : State} (h : signallingBroker.Reachable s) :
    (broker.restrict FreshIds).Reachable s :=
  h.mono fun _ _ hok => hok.1

theorem spawned_of_reachable {s : State} (h : (broker.restrict FreshIds).Reachable s) :
    Spawned s := by
  refine h.invariant (P := Spawned) ⟨fun f id hid => ?_, fun id hw => ?_⟩
    fun t l ht hS hen => hS.step (leases_of_reachable ht) hen.1
  · simp only [broker, System.restrict, State.start] at hid
    split at hid <;> simp [Handler.new, Pc.spawned] at hid
  · simp [broker, System.restrict, State.start] at hw

/-- The reaping of a given up session makes progress with every helper's step. -/
def reapProgress (f : ℕ) (id : Text) : signallingBroker.Progress Helper where
  I s := GivenUp s f id
  goal s := s.group id = .reaped
  rank s := (helperOf s id).rank
  helper s := helperOf s id
  steps := Helper.steps f id
  enabled s _ h _ := h.enabled
  other s l hr h hg hen hg' := by
    obtain ⟨h', hlt | ⟨he, -⟩⟩ := h.step (leases_of_reachable (fresh_of_signalling hr)) hen.1 hen.2.2 hg'
    · exact ⟨h', .inl hlt⟩
    · exact ⟨h', .inr ⟨congrArg Helper.rank he, he⟩⟩
  helpful s l hr h hg hen hl hg' := by
    obtain ⟨-, hlt | ⟨-, hnot⟩⟩ := h.step (leases_of_reachable (fresh_of_signalling hr)) hen.1 hen.2.2 hg'
    · exact hlt
    · exact absurd hl hnot

/-- The frontend leaves its session: its PtyDetach is handled or its connection is lost. -/
def Leaves (f : ℕ) : Label → Prop
  | .receive g (.frame value) _ => g = f ∧ decodeValue value = .ok .ptyDetach
  | .disconnect g => g = f
  | _ => False

namespace Leases
variable {s : State} {f : ℕ} {id : Text} {session : Session} {l : Label}

/-- When its starter leaves, an unconfirmed session is out of the map and about to
be signalled. -/
theorem leave_step (hI : Leases s) (hen : s.enabled l) (hs : s.sessions id = some session)
    (hun : session.unconfirmedBy f) (hl : Leaves f l) :
    (s.next l).sessions id = none ∧ ∃ cause, (s.next l).At f (.signalling id cause) := by
  obtain ⟨-, c, hcon, hf, -⟩ := Session.unconfirmedBy_iff.mp hun
  have hcontrols : s.Controls f id := ⟨session, c, hs, hcon, hf⟩
  cases l with
  | receive g input around =>
    cases input with
    | frame value =>
      obtain ⟨rfl, hd⟩ := hl
      have hpc : (s.handler g).pc = .idle := hen.1
      have hc : (s.handler g).controlledSession = some id := by
        simpa [Handler.leased, hpc] using hI.leased_of_controls (by simp [hpc]) hcontrols
      have h : s.next (.receive g (.frame value) around) = (s.setSession id none).setHandler g
          { s.handler g with controlledSession := none, pc := .signalling id .detach } := by
        simp only [State.next, State.receive, hd, State.dispatchMessage, State.dispatchDetach, hc]
        simp [State.setHandler, hs, hun, State.setPc, State.setSession]
      rw [h]
      exact ⟨by simp [State.setHandler, State.setSession], .detach, by simp [State.At, State.setHandler]⟩
    | _ => simp [Leaves] at hl
  | disconnect g =>
    obtain rfl : g = f := hl
    refine ⟨by simp [State.next, State.disconnectFrontend, State.setPc, hs, State.afterDisconnect, hun], ?_⟩
    have hmem : id ∈ s.unconfirmed g := by
      simp only [State.unconfirmed, List.mem_filter]
      exact ⟨(hI.known_of_session hs).1, by simp [hs, hun]⟩
    -- A frontend controls one session at most, so this is the only one to reap.
    have hall : ∀ id' ∈ s.unconfirmed g, id' = id := by
      intro id' hid'
      simp only [State.unconfirmed, List.mem_filter, Option.any_eq_true] at hid'
      obtain ⟨-, session', hs', hun'⟩ := hid'
      obtain ⟨-, c', hcon', hf', -⟩ := Session.unconfirmedBy_iff.mp hun'
      exact hI.unique g id' id ⟨session', c', hs', hcon', hf'⟩ hcontrols
    cases hlist : s.unconfirmed g with
    | nil => simp [hlist] at hmem
    | cons id' rest =>
      obtain rfl := hall id' (by simp [hlist])
      exact ⟨.gone rest, by simp [State.At, State.next, State.disconnectFrontend, State.setPc, hlist, State.reapNext]⟩
  | _ => exact absurd hl (by simp [Leaves])

end Leases

theorem watched_step {s : State} {l : Label} {id : Text} (hI : Leases s) (hen : s.enabled l)
    (hw : s.watcher id ≠ .absent) : (s.next l).watcher id ≠ .absent := by
  by_cases hl : l.agent = some id
  · cases l <;> simp only [Label.agent, Option.some.injEq, reduceCtorEq] at hl <;> subst hl <;>
      simp only [State.next, State.spawnAgent, State.spawnWatcher, State.requestStop,
        State.stopGroup, State.setGroup, State.setPc, State.removeAfterAgentExit, State.reapGroup,
        State.notifyExit, State.finishCompletion, State.setWatcher, State.setSession, State.write]
    all_goals repeat' split
    all_goals simp_all
  · rwa [(State.agent_frame hI hen hl).1]

/-- An unconfirmed session is its starter's; when the starter leaves, the session
leaves the map for good and its group is reaped; a confirmed session leaves the map
only by its agent's exit. -/
theorem started_sessions (id : Text) :
    (∀ s session, (broker.restrict FreshIds).Reachable s → s.sessions id = some session →
      session.writePhase = .written → session.startConfirmed = false →
      ∃ c, session.controller = some c ∧ c.frontendId = session.starter ∧
        c.lifecycleEnabled = true) ∧
    (∀ (e : signallingBroker.Execution) (i : ℕ) (l : Label) (session : Session),
      (∀ k : Helper, e.Fair (k.steps session.starter id)) →
      (e.state i).sessions id = some session → session.writePhase = .written →
      session.startConfirmed = false → e.label i = some l → Leaves session.starter l →
      (∀ j, i < j → (e.state j).sessions id = none) ∧
        ∃ j, i < j ∧ (e.state j).group id = .reaped) ∧
    ∀ s l session, (broker.restrict FreshIds).Reachable s → s.enabled l →
      s.sessions id = some session → session.startConfirmed = true →
      (∃ session', (s.next l).sessions id = some session' ∧ session'.startConfirmed = true) ∨
        l = .classify id ∧ s.group id = .exited := by
  refine ⟨fun s session hr hs => (leases_of_reachable hr).unconfirmed id session hs, ?_,
    fun s l session hr hen hs hc => (leases_of_reachable hr).confirmed_step hen hs hc⟩
  intro e i l session hfair hs hw hn hl hleave
  have hreach (j : ℕ) := fresh_of_signalling (e.reachable j)
  have hI (j : ℕ) := leases_of_reachable (hreach j)
  obtain ⟨hen, hnext⟩ := e.step i l hl
  have hun : session.unconfirmedBy session.starter :=
    Session.unconfirmedBy_iff.mpr ⟨⟨hw, hn⟩, (hI i).unconfirmed id session hs hw hn⟩
  obtain ⟨hgone, hpc⟩ := (hI i).leave_step hen.1 hs hun hleave
  have hwait : (e.state i).watcher id = .waiting :=
    ((hI i).watcher id session hs).resolve_right fun h => by simp [hw] at h
  have hagent : l.agent ≠ some id := by
    cases l <;> simp_all [Leaves, Label.agent]
  have hframe := State.agent_frame (hI i) hen.1 hagent
  have hstays : ∀ j, i + 1 ≤ j →
      (e.state j).sessions id = none ∧ (e.state j).watcher id ≠ .absent := by
    intro j hj
    induction j, hj using Nat.le_induction with
    | base =>
      rw [hnext]
      refine ⟨hgone, ?_⟩
      show ((e.state i).next l).watcher id ≠ .absent
      simp [hframe.1, hwait]
    | succ j _ ih =>
      cases hlj : e.label j with
      | none => rwa [e.stutter j hlj]
      | some k =>
        obtain ⟨henj, hnj⟩ := e.step j k hlj
        rw [hnj]
        exact ⟨(hI j).gone_step henj.1 ih.1 ih.2, watched_step (hI j) henj.1 ih.2⟩
  refine ⟨fun j hj => (hstays j hj).1, ?_⟩
  have hgroup : (e.state (i + 1)).group id ≠ .absent :=
    (spawned_of_reachable (hreach (i + 1))).watcher id (hstays (i + 1) le_rfl).2
  by_cases hreaped : (e.state (i + 1)).group id = .reaped
  · exact ⟨i + 1, by omega, hreaped⟩
  have hgiven : GivenUp (e.state (i + 1)) session.starter id := by
    rw [hnext] at hgroup hreaped ⊢
    refine ⟨hgone, .inl ⟨hframe.1.trans hwait, ?_⟩⟩
    cases hg : (signallingBroker.next (e.state i) l).group id with
    | absent => exact absurd hg hgroup
    | running => exact .inl ⟨rfl, hpc⟩
    | signalled => exact .inr (.inl rfl)
    | exited => exact .inr (.inr rfl)
    | reaped => exact absurd hg hreaped
  obtain ⟨j, hj, hg⟩ := (reapProgress session.starter id).eventually e hfair (i + 1) hgiven
  exact ⟨j, by omega, hg⟩

-- the starter detaches before it has acknowledged

def abandonRun : List Label :=
  startRun ++ [.receive 1 (frameOf .ptyDetach) ⟨none, true⟩, .signal 1 sampleId .detach true,
    .agentKilled sampleId, .classify sampleId, .reapGroup sampleId none (.ok ())]

def startedSession : Session where
  childPid := 42
  controller := some ⟨1, true, 4000, true, 0⟩
  agentExited := false
  writePhase := .written
  startConfirmed := false
  stopInFlight := false
  starter := 1

theorem abandonRun_valid : signallingBroker.Valid signallingBroker.init abandonRun := by
  decide +kernel

theorem abandonRun_end :
    ((signallingBroker.run signallingBroker.init abandonRun).handler 1).pc =
        .awaiting sampleId .detach ∧
      (signallingBroker.run signallingBroker.init abandonRun).group sampleId = .reaped ∧
      (signallingBroker.run signallingBroker.init abandonRun).watcher sampleId =
        .finishing (.ok ()) := by
  decide

theorem started_sessions_abandoned : ∃ j, 12 < j ∧
    ((System.Execution.ofRun abandonRun abandonRun_valid).state j).group sampleId = .reaped := by
  obtain ⟨hpc, hgroup, hwatcher⟩ := abandonRun_end
  have hs : ((System.Execution.ofRun abandonRun abandonRun_valid).state 12).sessions sampleId =
      some startedSession := by
    decide +kernel
  have hfair : ∀ k : Helper, (System.Execution.ofRun abandonRun abandonRun_valid).Fair
      (k.steps 1 sampleId) := by
    refine fun k => System.Execution.ofRun_fair _ fun l hl hen => ?_
    cases k with
    | signal =>
      obtain ⟨cause, ok, rfl⟩ := hl
      have h : ((signallingBroker.run signallingBroker.init abandonRun).handler 1).pc =
        .signalling sampleId cause := hen.1
      simp [hpc] at h
    | kill =>
      obtain rfl : l = .agentKilled sampleId := hl
      have h : (signallingBroker.run signallingBroker.init abandonRun).group sampleId =
        .signalled := hen.1
      simp [hgroup] at h
    | classify =>
      obtain rfl : l = .classify sampleId := hl
      have h : (signallingBroker.run signallingBroker.init abandonRun).group sampleId =
        .exited := hen.1.2.1
      simp [hgroup] at h
    | reap =>
      obtain ⟨note, result, rfl⟩ := hl
      have h : (signallingBroker.run signallingBroker.init abandonRun).watcher sampleId =
        .reaping note := hen.1
      simp [hwatcher] at h
  exact ((started_sessions sampleId).2.1 (.ofRun abandonRun abandonRun_valid) 12
    (.receive 1 (frameOf .ptyDetach) ⟨none, true⟩) startedSession hfair hs rfl rfl rfl
    ⟨rfl, by decide⟩).2

end Winsmux.RemoteHelper
