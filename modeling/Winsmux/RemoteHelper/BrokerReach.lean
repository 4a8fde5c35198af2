import Winsmux.RemoteHelper.BrokerLease

/-!
# Leases in every run

Every step of the broker keeps `Leases`, one lemma a thread's place, so that it
holds in every state a run with fresh session ids reaches.
-/
namespace Winsmux.RemoteHelper
open Json Transition

namespace Leases
variable {s s' : State} {f : ℕ} {id : Text}

/-- What a step outside the handlers has to show. -/
structure OtherStep (s s' : State) : Prop where
  next : s'.nextFrontendId = s.nextFrontendId
  handler : s'.handler = s.handler
  drawn : s'.drawn = s.drawn
  sessions : ∀ id, s'.sessions id = s.sessions id ∨
    s'.sessions id = none ∧ s.watcher id ≠ .absent ∧ s.announced id
  watcher : ∀ id, s'.watcher id = s.watcher id ∨ s.watcher id ≠ .absent ∧ s'.watcher id ≠ .absent ∧
    s'.sessions id = none
  completion : ∀ id, s'.completion id ≠ none → s'.watcher id = .done

theorem other_step (hI : Leases s) (h : OtherStep s s') : Leases s' := by
  have sessions : ∀ id session, s'.sessions id = some session → s.sessions id = some session := by
    intro id session hs
    rcases h.sessions id with e | ⟨e, -⟩ <;> rw [e] at hs
    · exact hs
    · simp at hs
  have absent : ∀ id, s'.watcher id = .absent ↔ s.watcher id = .absent := by
    intro id
    rcases h.watcher id with e | ⟨e, e', -⟩
    · rw [e]
    · simp [e, e']
  have untouched : ∀ id, s.Untouched id → s'.Untouched id := by
    intro id hu
    have hw := (absent id).mpr hu.watcher
    refine ⟨?_, hw, ?_, fun f => h.handler ▸ hu.controlled f, fun f => h.handler ▸ hu.leased f⟩
    · rcases h.sessions id with e | ⟨e, -⟩
      · exact e.trans hu.session
      · exact e
    · by_contra hc
      simpa [hw] using h.completion id hc
  exact
    { later := fun f hf => by
        rw [h.handler]
        exact hI.later f (h.next ▸ hf)
      fresh := fun id hid => by
        obtain ⟨hu, hn⟩ := hI.fresh id (h.drawn ▸ hid)
        exact ⟨untouched id hu, by rwa [h.handler]⟩
      unpublished := fun f id hid => by
        rw [h.handler] at hid ⊢
        obtain ⟨hu, hinj⟩ := hI.unpublished f id hid
        exact ⟨untouched id hu, hinj⟩
      must := fun f id session hl hs => hI.must f id session (h.handler ▸ hl) (sessions id session hs)
      may := fun id session c hs hc => by
        rw [h.handler]
        exact hI.may id session c (sessions id session hs) hc
      unique := fun f id id' ⟨session, c, hs, hc⟩ ⟨session', c', hs', hc'⟩ =>
        hI.unique f id id' ⟨session, c, sessions id session hs, hc⟩
          ⟨session', c', sessions id' session' hs', hc'⟩
      watcher := fun id session hs => by
        rcases h.watcher id with e | ⟨-, -, e⟩
        · rw [e]
          exact hI.watcher id session (sessions id session hs)
        · simp [e] at hs
      completion := h.completion
      alive := fun id session hs => hI.alive id session (sessions id session hs)
      at_pc := fun f => by
        refine (hI.at_pc f).frame (by rw [h.handler]) (fun id _ => h.sessions id) (fun id _ => absent id)
      unconfirmed := fun id session hs => hI.unconfirmed id session (sessions id session hs) }

/-- A step of a reader, an agent or a writer lock. -/
theorem aside (hI : Leases s) (next : s'.nextFrontendId = s.nextFrontendId)
    (handler : s'.handler = s.handler) (sessions : s'.sessions = s.sessions)
    (watcher : s'.watcher = s.watcher) (drawn : s'.drawn = s.drawn)
    (completion : s'.completion = s.completion) : Leases s' :=
  hI.other_step
    { next := next, handler := handler, drawn := drawn
      sessions := fun id => .inl (by rw [sessions])
      watcher := fun id => .inl (by rw [watcher])
      completion := fun id hc => by rw [watcher]; exact hI.completion id (completion ▸ hc) }

/-- A watcher past its agent's exit has taken the session out of the map. -/
theorem session_of_watcher (hI : Leases s) (hw : s.watcher id ≠ .waiting)
    (ha : s.watcher id ≠ .absent) : s.sessions id = none := by
  by_contra hs
  obtain ⟨session, hs⟩ := Option.ne_none_iff_exists'.mp hs
  rcases hI.watcher id session hs with h | ⟨h, -⟩
  · exact hw h
  · exact ha h

/-- A watcher that goes on after its session is out of the map. -/
theorem watcher_step {w : Watcher} (hI : Leases s)
    (hw : s.watcher id ≠ .waiting ∧ s.watcher id ≠ .absent ∧ s.watcher id ≠ .done)
    (hw' : w ≠ .absent) (next : s'.nextFrontendId = s.nextFrontendId)
    (handler : s'.handler = s.handler) (drawn : s'.drawn = s.drawn)
    (sessions : s'.sessions = s.sessions)
    (watcher : s'.watcher = Function.update s.watcher id w)
    (completion : s'.completion = s.completion ∨
      w = .done ∧ ∃ r, s'.completion = Function.update s.completion id r) : Leases s' := by
  refine hI.other_step
    { next := next, handler := handler, drawn := drawn
      sessions := fun id' => .inl (by rw [sessions])
      watcher := fun id' => ?_, completion := fun id' hc => ?_ }
  · by_cases h : id' = id
    · subst h
      exact .inr ⟨hw.2.1, by simpa [watcher] using hw',
        by rw [sessions, hI.session_of_watcher hw.1 hw.2.1]⟩
    · exact .inl (by simp [watcher, h])
  · by_cases h : id' = id
    · subst h
      rcases completion with e | ⟨rfl, -⟩
      · exact absurd (hI.completion id' (e ▸ hc)) hw.2.2
      · simp [watcher]
    · rw [watcher, Function.update_of_ne h]
      refine hI.completion id' ?_
      rcases completion with e | ⟨-, r, e⟩
      · exact e ▸ hc
      · simpa [e, h] using hc

theorem classify (hI : Leases s) (hw : s.watcher id = .waiting) (ha : s.announced id) :
    Leases (s.removeAfterAgentExit id) := by
  refine hI.other_step
    { next := rfl, handler := rfl, drawn := rfl
      sessions := fun id' => ?_, watcher := fun id' => ?_, completion := fun id' hc => ?_ }
  · by_cases h : id' = id
    · subst h
      exact .inr ⟨by simp [State.removeAfterAgentExit, State.setSession, State.setWatcher], by simp [hw], ha⟩
    · exact .inl (by simp [State.removeAfterAgentExit, State.setSession, State.setWatcher, h])
  · by_cases h : id' = id
    · subst h
      exact .inr (by simp [State.removeAfterAgentExit, State.setSession, State.setWatcher, hw])
    · exact .inl (by simp [State.removeAfterAgentExit, State.setSession, State.setWatcher, h])
  · have hd := hI.completion id' hc
    have hne : id' ≠ id := by
      rintro rfl
      simp [hw] at hd
    simpa [State.removeAfterAgentExit, State.setSession, State.setWatcher, hne] using hd

/-- A move that keeps what the handler leases and controls. -/
theorem move {pc : Pc} (hI : Leases s) (hm : Moved s s' f { s.handler f with pc := pc })
    (hpc : (s.handler f).pc ≠ .closing ∧ (s.handler f).pc ≠ .absent)
    (leased : Handler.leased { s.handler f with pc := pc } = (s.handler f).leased ∨
      Handler.leased { s.handler f with pc := pc } = none ∧
        (pc = .closing ∨ ∀ id, ¬ s.Controls f id))
    (unpublished : ∀ id, pc.unpublished = some id → (s.handler f).pc.unpublished = some id)
    (at_pc : s'.AtPc f { s.handler f with pc := pc }) : Leases s' :=
  hI.local_step
    { toMoved := hm, pc := hpc, leased := leased, controlled := .inr (.inl rfl)
      unpublished := unpublished, at_pc := at_pc }

/-- A handler that gives up: its frontend is to be disconnected. -/
theorem close (hI : Leases s) (hm : Moved s s' f { s.handler f with pc := .closing })
    (hpc : (s.handler f).pc ≠ .closing ∧ (s.handler f).pc ≠ .absent) : Leases s' :=
  hI.move hm hpc (.inr ⟨rfl, .inl rfl⟩) (fun id hid => by simp [Pc.unpublished] at hid) trivial

/-- A refused start: nothing is leased before and nothing after. -/
theorem refuse {m : Message} {after : After} (hI : Leases s)
    (hm : Moved s s' f { s.handler f with pc := .replying m after })
    (hpc : (s.handler f).pc ≠ .closing ∧ (s.handler f).pc ≠ .absent)
    (hc : (s.handler f).controlledSession = none) (hfree : ∀ id, ¬ s.Controls f id)
    (hm' : m.IsReply) : Leases s' :=
  hI.move hm hpc (.inr ⟨by simpa [Handler.leased] using hc, .inr hfree⟩)
    (fun id hid => by simp [Pc.unpublished] at hid) ⟨hm', fun _ => hc⟩

theorem free_of_leased (hI : Leases s) (hpc : (s.handler f).pc ≠ .closing)
    (hl : (s.handler f).leased = none) (id : Text) : ¬ s.Controls f id := fun hcon => by
  simpa [hl] using hI.leased_of_controls hpc hcon

theorem greet {input : Input} (hI : Leases s) (hpc : s.At f .greeting) (hlegal : input.Legal) :
    Leases (s.greet f input) := by
  have hpc : (s.handler f).pc = .greeting := hpc
  have hc : (s.handler f).controlledSession = none := by
    simpa [State.AtPc, hpc] using hI.at_pc f
  have hl : (s.handler f).leased = none := by simp [Handler.leased, hpc]
  have hlive : (s.handler f).pc ≠ .closing ∧ (s.handler f).pc ≠ .absent := by simp [hpc]
  have hfree := hI.free_of_leased hlive.1 hl
  cases input with
  | eof => exact hI.close ⟨rfl, rfl, rfl, rfl, rfl, rfl⟩ hlive
  | badFrame reject =>
    obtain ⟨code, detail, rfl⟩ := State.eq_rejectWith_of_frameRejects hlegal
    exact hI.refuse ⟨rfl, rfl, rfl, rfl, rfl, rfl⟩ hlive hc hfree trivial
  | frame value =>
    simp only [State.greet]
    cases hd : decodeValue value with
    | error reject =>
      obtain ⟨code, detail, rfl⟩ := decodeValue_error hd
      exact hI.refuse ⟨rfl, rfl, rfl, rfl, rfl, rfl⟩ hlive hc hfree trivial
    | ok hello =>
      exact hI.local_step (f := f)
        { toMoved := ⟨rfl, rfl, rfl, rfl, rfl, rfl⟩, pc := hlive, leased := .inr ⟨rfl, .inr hfree⟩
          controlled := .inl rfl, unpublished := fun id hid => by simp [Pc.unpublished] at hid
          at_pc := ⟨negotiate_isReply hello, fun _ => rfl⟩ }

theorem sendReply {m : Message} {after : After} {ok : Bool} (hI : Leases s)
    (hpc : s.At f (.replying m after)) : Leases (s.sendReply f m after ok) := by
  have hpc : (s.handler f).pc = .replying m after := hpc
  have hlive : (s.handler f).pc ≠ .closing ∧ (s.handler f).pc ≠ .absent := by simp [hpc]
  unfold State.sendReply
  split_ifs
  · exact hI.move ⟨rfl, rfl, rfl, rfl, rfl, rfl⟩ hlive (.inl (by simp [Handler.leased, hpc]))
      (fun id hid => by simp [Pc.unpublished] at hid) trivial
  · exact hI.close ⟨rfl, rfl, rfl, rfl, rfl, rfl⟩ hlive

/-- Drawing an id alone. -/
theorem draw (hI : Leases s) (id : Text) : Leases { s with drawn := id :: s.drawn } where
  later := hI.later
  fresh id' hid := by
    obtain ⟨hu, hn⟩ := hI.fresh id' fun h => hid (List.mem_cons_of_mem _ h)
    exact ⟨⟨hu.session, hu.watcher, hu.completion, hu.controlled, hu.leased⟩, hn⟩
  unpublished f id' hid := by
    obtain ⟨hu, hinj⟩ := hI.unpublished f id' hid
    exact ⟨⟨hu.session, hu.watcher, hu.completion, hu.controlled, hu.leased⟩, hinj⟩
  must := hI.must
  may := hI.may
  unique := hI.unique
  watcher := hI.watcher
  completion := hI.completion
  alive := hI.alive
  at_pc := hI.at_pc
  unconfirmed := hI.unconfirmed

theorem drawId {resolved : Option Text} {bytes : List UInt8} (hI : Leases s)
    (hpc : s.At f (.startDraw resolved)) (hfresh : State.sessionIdOf bytes ∉ s.drawn) :
    Leases (s.drawId f resolved bytes) := by
  have hpc : (s.handler f).pc = .startDraw resolved := hpc
  have hc : (s.handler f).controlledSession = none := by
    simpa [State.AtPc, hpc] using hI.at_pc f
  have hl : (s.handler f).leased = none := by simpa [Handler.leased, hpc] using hc
  have hlive : (s.handler f).pc ≠ .closing ∧ (s.handler f).pc ≠ .absent := by simp [hpc]
  obtain ⟨hu, hn⟩ := hI.fresh _ hfresh
  have hD := hI.draw (State.sessionIdOf bytes)
  unfold State.drawId
  dsimp only
  split_ifs with hin
  · exact hD
  · exact hD.refuse ⟨rfl, rfl, rfl, rfl, rfl, rfl⟩ hlive hc (hD.free_of_leased hlive.1 hl) trivial
  · have huD : State.Untouched { s with drawn := State.sessionIdOf bytes :: s.drawn }
        (State.sessionIdOf bytes) :=
      ⟨hu.session, hu.watcher, hu.completion, hu.controlled, hu.leased⟩
    refine hD.handler_step (f := f)
      { next := rfl, present := hlive.2
        others := fun g hg => by simp [State.setPc, hg]
        drawn := rfl, completion := rfl
        frame := fun id => .inl ⟨rfl, rfl⟩
        known := fun id hid => by simp [State.setPc, Handler.leased, hc] at hid
        unpublished := fun id hid => ?_
        must := fun id session hl' => by simp [State.setPc, Handler.leased] at hl'
        may := fun id session c hs hcon => ?_
        unique := fun hcl => by simp [State.setPc] at hcl
        watcher := hD.watcher
        completed := hD.completion
        alive := hD.alive
        at_pc := by simpa [State.AtPc, State.setPc] using hc
        unconfirmed := hD.unconfirmed }
    · obtain rfl : State.sessionIdOf bytes = id := by simpa [State.setPc, Pc.unpublished] using hid
      refine ⟨⟨List.mem_cons_self, fun g _ => hn g⟩, hu.session, hu.watcher, hu.completion,
        fun g => ?_, fun g => ?_⟩ <;> by_cases hg : g = f
      · simp [State.setPc, hg, hc]
      · simpa [State.setPc, hg] using hu.controlled g
      · simp [State.setPc, hg, Handler.leased]
      · simpa [State.setPc, hg] using hu.leased g
    · refine .inr ⟨?_, hs⟩
      rintro rfl
      exact hD.free_of_leased hlive.1 hl id ⟨session, c, hs, hcon, rfl⟩

theorem spawnAgent {resolved : Option Text} {spawned : Except Text UInt32} {cleaned : Bool}
    (hI : Leases s) (hpc : s.At f (.startSpawn id resolved)) :
    Leases (s.spawnAgent f id resolved spawned cleaned) := by
  have hpc : (s.handler f).pc = .startSpawn id resolved := hpc
  have hc : (s.handler f).controlledSession = none := by
    simpa [State.AtPc, hpc] using hI.at_pc f
  have hl : (s.handler f).leased = none := by simp [Handler.leased, hpc]
  have hlive : (s.handler f).pc ≠ .closing ∧ (s.handler f).pc ≠ .absent := by simp [hpc]
  have hfree := hI.free_of_leased hlive.1 hl
  unfold State.spawnAgent
  split
  · exact hI.refuse ⟨rfl, rfl, rfl, rfl, rfl, rfl⟩ hlive hc hfree trivial
  dsimp only
  split_ifs
  · exact hI.refuse ⟨rfl, rfl, rfl, rfl, rfl, rfl⟩ hlive hc hfree trivial
  · exact hI.refuse ⟨rfl, rfl, rfl, rfl, rfl, rfl⟩ hlive hc hfree trivial
  · exact hI.move ⟨rfl, rfl, rfl, rfl, rfl, rfl⟩ hlive (.inl hl.symm)
      (fun id' hid => by simpa [Pc.unpublished, hpc] using hid) hc

theorem insertSession {pid : UInt32} {resolved : Option Text} (hI : Leases s)
    (hpc : s.At f (.startInsert id pid resolved)) : Leases (s.insertSession f id pid resolved) := by
  have hpc : (s.handler f).pc = .startInsert id pid resolved := hpc
  have hc : (s.handler f).controlledSession = none := by
    simpa [State.AtPc, hpc] using hI.at_pc f
  have hun : (s.handler f).pc.unpublished = some id := by simp [hpc, Pc.unpublished]
  obtain ⟨hu, hinj⟩ := hI.unpublished f id hun
  have hd : id ∈ s.drawn := by_contra fun hd => (hI.fresh id hd).2 f hun
  refine hI.session_step (f := f)
    { next := rfl, handler := rfl, sessions := rfl, watcher := rfl, drawn := rfl, completion := rfl
      mine := ⟨⟨hd, fun g hg e => hg (hinj g e)⟩, fun g _ => hu.leased g⟩
      pc := by simp [hpc]
      before := .inr (by simp [Handler.leased, hpc])
      leased := .inl rfl
      controlled := .inr hc
      unpublished := rfl
      lease := ?_, session := ?_
      at_pc := ⟨hc, hu.watcher, _, by simp [State.insertSession, State.setPc, State.setSession]; rfl,
        rfl, rfl, rfl, rfl, rfl, rfl⟩ }
  · rintro _ ⟨⟩
    exact .inl ⟨rfl, _, rfl, rfl⟩
  · rintro _ ⟨⟩
    exact ⟨.inr ⟨hu.watcher, rfl⟩, rfl, fun hw => by simp at hw⟩

theorem spawnWatcher {st : Starting} {spawned : Outcome} {cleaned : Bool} (hI : Leases s)
    (hpc : s.At f (.startWatcher st)) : Leases (s.spawnWatcher f st spawned cleaned) := by
  have hpc : (s.handler f).pc = .startWatcher st := hpc
  have hat := hI.at_pc f
  simp only [State.AtPc, hpc] at hat
  obtain ⟨hc, hw, session, hs, hst⟩ := hat
  have hl : (s.handler f).leased = some st.id := by simp [Handler.leased, hpc]
  have hlive : (s.handler f).pc ≠ .closing ∧ (s.handler f).pc ≠ .absent := by simp [hpc]
  have hmine : s.Mine f st.id := hI.mine_of_controls ⟨session, _, hs, hst.controller, rfl⟩
  unfold State.spawnWatcher
  split
  · refine hI.handler_step (f := f)
      { next := rfl, present := hlive.2
        others := fun g hg => by simp [State.setPc, State.setWatcher, hg]
        drawn := rfl, completion := rfl
        frame := fun id' => ?frame
        known := fun id' hid => ?known
        unpublished := fun id' hid => by simp [State.setPc, Pc.unpublished] at hid
        must := fun id' session' hl' hs' => ?must
        may := fun id' session' c hs' hc' => ?may
        unique := fun hcl => by simp [State.setPc] at hcl
        watcher := fun id' session' hs' => ?watcher
        completed := fun id' hd => ?completed
        alive := hI.alive
        at_pc := ?at_pc
        unconfirmed := hI.unconfirmed }
    case frame =>
      by_cases h : id' = st.id
      · exact .inr (h ▸ hmine)
      · exact .inl ⟨rfl, by simp [State.setPc, State.setWatcher, h]⟩
    case known =>
      obtain rfl : st.id = id' := by
        simpa [State.setPc, State.setWatcher, Handler.leased, hc] using hid
      exact hmine.1
    case must =>
      obtain rfl : st.id = id' := by
        simpa [State.setPc, State.setWatcher, Handler.leased] using hl'
      exact hI.must f st.id session' hl hs'
    case may =>
      by_cases h : c.frontendId = f
      · have hl' := hI.leased_of_controls hlive.1 ⟨session', c, hs', hc', h⟩
        rw [hl] at hl'
        exact .inl ⟨h, .inr (by simpa [State.setPc, Handler.leased] using hl')⟩
      · exact .inr ⟨h, hs'⟩
    case watcher =>
      by_cases h : id' = st.id
      · exact .inl (by simp [State.setPc, State.setWatcher, h])
      · simpa [State.setPc, State.setWatcher, h] using hI.watcher id' session' hs'
    case completed =>
      have hne : id' ≠ st.id := by
        rintro rfl
        simpa [hw] using hI.completion _ hd
      simpa [State.setPc, State.setWatcher, hne] using hI.completion id' hd
    case at_pc =>
      simp only [State.AtPc, State.setPc, State.setWatcher, Function.update_self]
      refine ⟨hc, by simp, fun session' hs' => ?_⟩
      obtain rfl : session = session' := by simpa [hs] using hs'
      exact hst
  · exact hI.move ⟨rfl, rfl, rfl, rfl, rfl, rfl⟩ hlive (.inl hl.symm)
      (fun id' hid => by simp [Pc.unpublished] at hid) ⟨hc, hw, session, st.lease, hs, hst⟩

theorem forget {error : Text} (hI : Leases s) (hpc : s.At f (.startForget id error)) :
    Leases (s.forget f id error) := by
  have hpc : (s.handler f).pc = .startForget id error := hpc
  have hat := hI.at_pc f
  simp only [State.AtPc, hpc] at hat
  obtain ⟨hc, hw, session, lease, hs, hst⟩ := hat
  have hl : (s.handler f).leased = some id := by simp [Handler.leased, hpc]
  exact hI.session_step (f := f)
    { next := rfl, handler := rfl, sessions := rfl, watcher := rfl, drawn := rfl, completion := rfl
      mine := hI.mine_of_controls ⟨session, _, hs, hst.controller, rfl⟩
      pc := by simp [hpc]
      before := .inl hl
      leased := .inr hc
      controlled := .inr hc
      unpublished := rfl
      lease := by simp
      session := by simp
      at_pc := ⟨trivial, fun _ => hc⟩ }

theorem spawnReader {st : Starting} {spawned : Outcome} (hI : Leases s)
    (hpc : s.At f (.startReader st)) : Leases (s.spawnReader f st spawned) := by
  have hpc : (s.handler f).pc = .startReader st := hpc
  have hat := hI.at_pc f
  simp only [State.AtPc, hpc] at hat
  obtain ⟨hc, hw, hst⟩ := hat
  have hl : (s.handler f).leased = some st.id := by simp [Handler.leased, hpc]
  have hlive : (s.handler f).pc ≠ .closing ∧ (s.handler f).pc ≠ .absent := by simp [hpc]
  unfold State.spawnReader
  split
  · exact hI.move ⟨rfl, rfl, rfl, rfl, rfl, rfl⟩ hlive (.inl hl.symm)
      (fun id' hid => by simp [Pc.unpublished] at hid) ⟨hc, hw, hst⟩
  · exact hI.move ⟨rfl, rfl, rfl, rfl, rfl, rfl⟩ hlive (.inl hl.symm)
      (fun id' hid => by simp [Pc.unpublished] at hid) ⟨hc, hw⟩

/-- The agent is gone before PtyStarted: its watcher has removed the session. -/
theorem exitedFirst (hI : Leases s) (hpc : (s.handler f).pc ≠ .closing ∧ (s.handler f).pc ≠ .absent)
    (hc : (s.handler f).controlledSession = none) (hl : (s.handler f).leased = some id)
    (hs : s.sessions id = none) : Leases (s.exitedFirst f id) := by
  refine hI.refuse ⟨rfl, rfl, rfl, rfl, rfl, rfl⟩ hpc hc (fun id' hcon => ?_) trivial
  obtain rfl : id = id' := by simpa [hl] using hI.leased_of_controls hpc.1 hcon
  obtain ⟨session, c, hs', -⟩ := hcon
  simp [hs] at hs'

theorem checkStartable {st : Starting} (hI : Leases s) (hpc : s.At f (.startCheck st)) :
    Leases (s.checkStartable f st) := by
  have hpc : (s.handler f).pc = .startCheck st := hpc
  have hat := hI.at_pc f
  simp only [State.AtPc, hpc] at hat
  obtain ⟨hc, hw, hst⟩ := hat
  have hl : (s.handler f).leased = some st.id := by simp [Handler.leased, hpc]
  have hlive : (s.handler f).pc ≠ .closing ∧ (s.handler f).pc ≠ .absent := by simp [hpc]
  unfold State.checkStartable
  split_ifs with hok
  · exact hI.move ⟨rfl, rfl, rfl, rfl, rfl, rfl⟩ hlive (.inl hl.symm)
      (fun id' hid => by simp [Pc.unpublished] at hid) ⟨hc, hw, hst⟩
  · refine hI.exitedFirst hlive hc hl ?_
    by_contra hs
    obtain ⟨session, hs⟩ := Option.ne_none_iff_exists'.mp hs
    exact hok ⟨session, hs, (hst session hs).writePhase, (hst session hs).agentExited⟩

theorem claim {st : Starting} (hI : Leases s) (hpc : s.At f (.startClaim st)) :
    Leases (s.claim f st) := by
  have hpc : (s.handler f).pc = .startClaim st := hpc
  have hat := hI.at_pc f
  simp only [State.AtPc, hpc] at hat
  obtain ⟨hc, hw, hst⟩ := hat
  have hl : (s.handler f).leased = some st.id := by simp [Handler.leased, hpc]
  have hlive : (s.handler f).pc ≠ .closing ∧ (s.handler f).pc ≠ .absent := by simp [hpc]
  unfold State.claim
  split
  · rename_i session hs
    have hst := hst session hs
    rw [if_neg (by simp [hst.writePhase, hst.agentExited])]
    refine hI.session_step (f := f)
      { next := rfl, handler := rfl, sessions := rfl, watcher := rfl, drawn := rfl
        completion := rfl
        mine := hI.mine_of_controls ⟨session, _, hs, hst.controller, rfl⟩
        pc := hlive
        before := .inl hl
        leased := .inl rfl
        controlled := .inr hc
        unpublished := rfl
        lease := ?_, session := ?_
        at_pc := ?_ }
    · rintro _ ⟨⟩
      exact .inl ⟨rfl, _, hst.controller, rfl⟩
    · rintro _ ⟨⟩
      exact ⟨.inl ((hI.watcher _ session hs).resolve_right fun h => hw h.1), hst.agentExited,
        fun h => by simp at h⟩
    · exact ⟨hc, hw, { session with writePhase := .writing },
        by simp [State.setPc, State.setSession], rfl, hst.starter, hst.startConfirmed,
        hst.stopInFlight, hst.agentExited, hst.controller⟩
  · rename_i hs
    exact hI.exitedFirst hlive hc hl hs

theorem sendStarted {st : Starting} {ok : Bool} (hI : Leases s) (hpc : s.At f (.startSend st)) :
    Leases (s.sendStarted f st ok) := by
  have hpc : (s.handler f).pc = .startSend st := hpc
  have hat := hI.at_pc f
  simp only [State.AtPc, hpc] at hat
  obtain ⟨hc, hw, hst⟩ := hat
  have hl : (s.handler f).leased = some st.id := by simp [Handler.leased, hpc]
  refine hI.local_step (f := f)
    { toMoved := ⟨rfl, rfl, rfl, rfl, rfl, rfl⟩, pc := by simp [hpc], leased := .inl hl.symm
      controlled := ?_
      unpublished := fun id' hid => by simp [Pc.unpublished] at hid
      at_pc := ⟨?_, hw, hst⟩ }
  · cases ok
    · exact .inr (.inl rfl)
    · exact .inr (.inr hl.symm)
  · cases ok <;> simp [hc]

theorem finishStart {st : Starting} {written : Bool} (hI : Leases s)
    (hpc : s.At f (.startFinish st written)) : Leases (s.finishStart f st written) := by
  have hpc : (s.handler f).pc = .startFinish st written := hpc
  have hat := hI.at_pc f
  simp only [State.AtPc, hpc] at hat
  obtain ⟨hc, hw, session, hs, hst⟩ := hat
  have hl : (s.handler f).leased = some st.id := by simp [Handler.leased, hpc]
  have hlive : (s.handler f).pc ≠ .closing ∧ (s.handler f).pc ≠ .absent := by simp [hpc]
  have hmine : s.Mine f st.id := hI.mine_of_controls ⟨session, _, hs, hst.controller, rfl⟩
  have hwait := (hI.watcher _ session hs).resolve_right fun h => hw h.1
  have hs' : (s.openGate st.id).sessions st.id = some session := hs
  unfold State.finishStart
  simp only [hs', hst.controller, Option.map_some]
  cases written with
  | true =>
    refine hI.session_step (f := f)
      { next := rfl, handler := rfl, sessions := rfl, watcher := rfl, drawn := rfl
        completion := rfl, mine := hmine, pc := hlive, before := .inl hl
        leased := .inl hc
        controlled := .inl hc
        unpublished := rfl
        lease := ?_, session := ?_
        at_pc := trivial }
    · rintro _ ⟨⟩
      exact .inl ⟨hc, _, rfl, by simp [Handler.lease]⟩
    · rintro _ ⟨⟩
      refine ⟨.inl hwait, hst.agentExited, fun _ hn => ⟨_, rfl, ?_, ?_⟩⟩
      · simp [Handler.lease, hst.starter]
      · simpa [Handler.lease, State.openGate] using hn
  | false =>
    refine hI.session_step (f := f)
      { next := rfl, handler := rfl, sessions := rfl, watcher := rfl, drawn := rfl
        completion := rfl, mine := hmine, pc := hlive, before := .inl hl
        leased := .inl rfl
        controlled := .inr hc
        unpublished := rfl
        lease := ?_, session := ?_
        at_pc := ⟨hc, hw⟩ }
    · rintro _ ⟨⟩
      exact .inl ⟨rfl, _, rfl, rfl⟩
    · rintro _ ⟨⟩
      exact ⟨.inl hwait, hst.agentExited, fun h => by simp at h⟩

theorem sendAttached {pid : UInt32} {lease : ℕ} {ok : Bool} (hI : Leases s)
    (hpc : s.At f (.attachSend id pid lease)) : Leases (s.sendAttached f id pid lease ok) := by
  have hpc : (s.handler f).pc = .attachSend id pid lease := hpc
  have hat := hI.at_pc f
  simp only [State.AtPc, hpc] at hat
  obtain ⟨hc, hst⟩ := hat
  have hlive : (s.handler f).pc ≠ .closing ∧ (s.handler f).pc ≠ .absent := by simp [hpc]
  cases ok with
  | true =>
    refine hI.move ⟨rfl, rfl, rfl, rfl, rfl, rfl⟩ hlive (.inl (by simp [Handler.leased, hpc]))
      (fun id' hid => by simp [Pc.unpublished] at hid) ⟨hc, fun session c hs hcon => ?_⟩
    obtain rfl : _ = c := by simpa [hst session hs] using hcon
    rfl
  | false => exact hI.close ⟨rfl, rfl, rfl, rfl, rfl, rfl⟩ hlive

theorem activateController (hI : Leases s) (hpc : s.At f (.attachActivate id)) :
    Leases (s.activateController f id) := by
  have hpc : (s.handler f).pc = .attachActivate id := hpc
  have hat := hI.at_pc f
  simp only [State.AtPc, hpc] at hat
  obtain ⟨hc, -⟩ := hat
  have hl : (s.handler f).leased = some id := by simpa [Handler.leased, hpc] using hc
  have hlive : (s.handler f).pc ≠ .closing ∧ (s.handler f).pc ≠ .absent := by simp [hpc]
  unfold State.activateController
  split
  · exact hI.move ⟨rfl, rfl, rfl, rfl, rfl, rfl⟩ hlive (.inl (by simp [Handler.leased, hpc]))
      (fun id' hid => by simp [Pc.unpublished] at hid) trivial
  · rename_i session hs
    obtain ⟨c, hcon, hf⟩ := hI.must f id session hl hs
    refine hI.session_step (f := f)
      { next := rfl, handler := rfl, sessions := rfl, watcher := rfl, drawn := rfl
        completion := rfl
        mine := hI.mine_of_controls ⟨session, c, hs, hcon, hf⟩
        pc := hlive, before := .inl hl
        leased := .inl hc
        controlled := .inl hc
        unpublished := rfl
        lease := ?_, session := ?_
        at_pc := trivial }
    · rintro _ ⟨⟩
      exact .inl ⟨hc, { c with active := true }, by simp [hcon, hf], hf⟩
    · rintro _ ⟨⟩
      refine ⟨hI.watcher id session hs, hI.alive id session hs, fun hw hn => ?_⟩
      obtain ⟨c', hc', hst, hlc⟩ := hI.unconfirmed id session hs hw hn
      obtain rfl : c = c' := by simpa [hcon] using hc'
      exact ⟨{ c with active := true }, by simp [hcon, hf], hst, hlc⟩

/-- The handler of a lost frontend goes on with the groups it has to reap. -/
theorem reap_next (hI : Leases s) {rest : List Text}
    (hm : Moved s s' f { s.handler f with pc := State.reapNext rest })
    (hpc : (s.handler f).pc ≠ .closing ∧ (s.handler f).pc ≠ .absent)
    (hl : (s.handler f).leased = none) : Leases s' := by
  cases rest <;> exact hI.move hm hpc (.inl hl.symm)
    (fun id' hid => by simp [State.reapNext, Pc.unpublished] at hid) trivial

theorem requestStop {cause : Cause} {ok : Bool} (hI : Leases s)
    (hpc : s.At f (.signalling id cause)) : Leases (s.requestStop f id cause ok) := by
  have hpc : (s.handler f).pc = .signalling id cause := hpc
  have hlive : (s.handler f).pc ≠ .closing ∧ (s.handler f).pc ≠ .absent := by simp [hpc]
  have hat := hI.at_pc f
  simp only [State.AtPc, hpc] at hat
  unfold State.requestStop
  split_ifs
  · refine hI.move ⟨rfl, rfl, rfl, rfl, rfl, rfl⟩ hlive
      (.inl (by simp [Handler.leased, hpc, Handler.stopping]))
      (fun id' hid => by simp [Pc.unpublished] at hid) ?_
    cases cause <;> exact hat
  cases cause with
  | gone rest =>
    exact hI.reap_next ⟨rfl, rfl, rfl, rfl, rfl, rfl⟩ hlive
      (by simp [Handler.leased, hpc, Handler.stopping])
  | _ => exact hI.close ⟨rfl, rfl, rfl, rfl, rfl, rfl⟩ hlive

/-- Once the completion is there the session has left the map. -/
theorem completed {cause : Cause} {result : Outcome} (hI : Leases s)
    (hpc : s.At f (.awaiting id cause)) (hdone : s.completion id = some result) :
    Leases (s.completed f cause result) := by
  have hpc : (s.handler f).pc = .awaiting id cause := hpc
  have hlive : (s.handler f).pc ≠ .closing ∧ (s.handler f).pc ≠ .absent := by simp [hpc]
  have hat := hI.at_pc f
  simp only [State.AtPc, hpc] at hat
  have hw : s.watcher id = .done := hI.completion id (by simp [hdone])
  have hgone : s.sessions id = none := hI.session_of_watcher (by simp [hw]) (by simp [hw])
  have hfree (hl : ∀ id', (s.handler f).leased = some id' → id' = id) (id' : Text) :
      ¬ s.Controls f id' := fun hcon => by
    obtain rfl := hl id' (hI.leased_of_controls hlive.1 hcon)
    obtain ⟨session, c, hs, -⟩ := hcon
    simp [hgone] at hs
  unfold State.completed
  cases cause with
  | failedStart => exact hI.close ⟨rfl, rfl, rfl, rfl, rfl, rfl⟩ hlive
  | noReader error =>
    refine hI.refuse ⟨rfl, rfl, rfl, rfl, rfl, rfl⟩ hlive hat.1 (hfree fun id' hl => ?_) trivial
    simpa [Handler.leased, hpc, Handler.stopping, eq_comm] using hl
  | detach =>
    cases result with
    | ok _ =>
      refine hI.refuse ⟨rfl, rfl, rfl, rfl, rfl, rfl⟩ hlive hat (hfree fun id' hl => ?_) trivial
      simp [Handler.leased, hpc, Handler.stopping, hat] at hl
    | error _ => exact hI.close ⟨rfl, rfl, rfl, rfl, rfl, rfl⟩ hlive
  | stop =>
    refine hI.local_step (f := f)
      { toMoved := ⟨rfl, rfl, rfl, rfl, rfl, rfl⟩, pc := hlive
        leased := .inr ⟨rfl, .inr (hfree fun id' hl => ?_)⟩
        controlled := .inl rfl
        unpublished := fun id' hid => by simp [Pc.unpublished] at hid
        at_pc := ⟨by cases result <;> trivial, fun _ => rfl⟩ }
    simpa [Handler.leased, hpc, Handler.stopping, hat, eq_comm] using hl
  | gone rest =>
    exact hI.reap_next ⟨rfl, rfl, rfl, rfl, rfl, rfl⟩ hlive
      (by simp [Handler.leased, hpc, Handler.stopping])

theorem afterDisconnect_eq {session session' : Session}
    (h : State.afterDisconnect f session = some session') :
    session.controlledBy f = false ∧ session' = session ∨
      session.controlledBy f = true ∧ session.unconfirmedBy f = false ∧
        session' = session.release := by
  unfold State.afterDisconnect at h
  split_ifs at h with hun hcon
  · exact .inr ⟨hcon, by simpa using hun, (Option.some.inj h).symm⟩
  · exact .inl ⟨by simpa using hcon, (Option.some.inj h).symm⟩

theorem disconnectFrontend (hI : Leases s) (hpc : s.At f .closing) :
    Leases (s.disconnectFrontend f) := by
  have hpc : (s.handler f).pc = .closing := hpc
  have hself : (s.disconnectFrontend f).handler f =
      { s.handler f with pc := State.reapNext (s.unconfirmed f) } := by
    simp [State.disconnectFrontend, State.setPc]
  have hleased : ((s.disconnectFrontend f).handler f).leased = none := by
    rw [hself]
    cases s.unconfirmed f <;> rfl
  have hun : ((s.disconnectFrontend f).handler f).pc.unpublished = none := by
    rw [hself]
    cases s.unconfirmed f <;> rfl
  -- A session of the map was there before, and `f` has lost it.
  have session : ∀ id session', (s.disconnectFrontend f).sessions id = some session' →
      ∃ session, s.sessions id = some session ∧
        (session.controlledBy f = false ∧ session' = session ∨
          session.controlledBy f = true ∧ session.unconfirmedBy f = false ∧
            session' = session.release) := by
    intro id session' hs'
    obtain ⟨session, hs, hs'⟩ := Option.bind_eq_some_iff.mp hs'
    exact ⟨session, hs, afterDisconnect_eq hs'⟩
  refine hI.handler_step (f := f)
    { next := rfl, present := by simp [hpc]
      others := fun g hg => by simp [State.disconnectFrontend, State.setPc, hg]
      drawn := rfl, completion := rfl
      frame := fun id => ?frame
      known := fun id hid => ?known
      unpublished := fun id hid => by simp [hun] at hid
      must := fun id session hl => by simp [hleased] at hl
      may := fun id session' c hs' hc => ?may
      unique := fun hcl => ?unique
      watcher := fun id session' hs' => ?watcher
      completed := hI.completion
      alive := fun id session' hs' => ?alive
      at_pc := ?at_pc
      unconfirmed := fun id session' hs' hw hn => ?unconfirmed }
  case frame =>
    by_cases hc : s.Controls f id
    · exact .inr (hI.mine_of_controls hc)
    · refine .inl ⟨?_, rfl⟩
      show (s.sessions id).bind (State.afterDisconnect f) = s.sessions id
      cases hs : s.sessions id with
      | none => rfl
      | some session =>
        have hcon : session.controlledBy f = false := by
          by_contra h
          exact hc (State.controls_iff.mpr ⟨session, hs, by simpa using h⟩)
        have hnot : session.unconfirmedBy f = false := by
          by_contra h
          obtain ⟨-, c, hc', hf, -⟩ := Session.unconfirmedBy_iff.mp (by simpa using h)
          simp [Session.controlledBy, hc', hf] at hcon
        simp [State.afterDisconnect, hcon, hnot]
  case known =>
    rw [hleased, hself] at hid
    obtain ⟨hd, hu⟩ := hI.known_of_leased (f := f) (.inr (by simpa using hid))
    exact ⟨hd, fun g _ => hu g⟩
  case may =>
    obtain ⟨session, hs, ⟨hcon, rfl⟩ | ⟨-, -, rfl⟩⟩ := session id session' hs'
    · refine .inr ⟨?_, hs⟩
      rintro rfl
      simp [Session.controlledBy, hc] at hcon
    · simp [Session.release] at hc
  case unique =>
    rw [hself] at hcl
    cases h : s.unconfirmed f <;> simp [h, State.reapNext] at hcl
  case watcher =>
    obtain ⟨session, hs, ⟨-, rfl⟩ | ⟨-, -, rfl⟩⟩ := session id session' hs'
    · exact hI.watcher id _ hs
    · exact hI.watcher id session hs
  case alive =>
    obtain ⟨session, hs, ⟨-, rfl⟩ | ⟨-, -, rfl⟩⟩ := session id session' hs'
    · exact hI.alive id _ hs
    · exact hI.alive id session hs
  case at_pc =>
    rw [hself]
    cases s.unconfirmed f <;> trivial
  case unconfirmed =>
    obtain ⟨session, hs, ⟨-, rfl⟩ | ⟨hcon, hnot, rfl⟩⟩ := session id session' hs'
    · exact hI.unconfirmed id _ hs hw hn
    · obtain ⟨c, hc, hf⟩ := Session.controlledBy_iff.mp hcon
      obtain ⟨c', hc', -, hl⟩ := hI.unconfirmed id session hs hw hn
      obtain rfl : c = c' := by simpa [hc] using hc'
      have : session.unconfirmedBy f = true := Session.unconfirmedBy_iff.mpr ⟨⟨hw, hn⟩, c, hc, hf, hl⟩
      simp [this] at hnot

theorem accept (hI : Leases s) : Leases (s.next .accept) := by
  have hnew := hI.later s.nextFrontendId le_rfl
  have hh : ∀ g, (s.next .accept).handler g = s.handler g ∨
      g = s.nextFrontendId ∧ (s.next .accept).handler g = .new .greeting := by
    intro g
    by_cases hg : g = s.nextFrontendId
    · exact .inr ⟨hg, by simp [State.next, State.setHandler, hg]⟩
    · exact .inl (by simp [State.next, State.setHandler, hg])
  -- The new handler relies on nothing, like the one it stands for.
  have same : ∀ g, ((s.next .accept).handler g).leased = (s.handler g).leased ∧
      ((s.next .accept).handler g).controlledSession = (s.handler g).controlledSession ∧
      ((s.next .accept).handler g).pc.unpublished = (s.handler g).pc.unpublished ∧
      (((s.next .accept).handler g).pc = .closing ↔ (s.handler g).pc = .closing) := by
    intro g
    rcases hh g with e | ⟨rfl, e⟩ <;> rw [e]
    · simp
    · simp [hnew, Handler.new, Handler.leased, Pc.unpublished]
  have untouched : ∀ id, s.Untouched id → (s.next .accept).Untouched id := fun id hu =>
    ⟨hu.session, hu.watcher, hu.completion, fun g => (same g).2.1 ▸ hu.controlled g,
      fun g => (same g).1 ▸ hu.leased g⟩
  exact
    { later := fun g hg => by
        have hlt : s.nextFrontendId + 1 ≤ g := hg
        rcases hh g with e | ⟨rfl, -⟩
        · rw [e]
          exact hI.later g (by omega)
        · omega
      fresh := fun id hid => by
        obtain ⟨hu, hn⟩ := hI.fresh id hid
        exact ⟨untouched id hu, fun g => (same g).2.2.1 ▸ hn g⟩
      unpublished := fun g id hid => by
        rw [(same g).2.2.1] at hid
        obtain ⟨hu, hinj⟩ := hI.unpublished g id hid
        exact ⟨untouched id hu, fun g' hg' => hinj g' ((same g').2.2.1 ▸ hg')⟩
      must := fun g id session hl hs => hI.must g id session ((same g).1 ▸ hl) hs
      may := fun id session c hs hc => by
        rw [(same _).1, (same _).2.2.2]
        exact hI.may id session c hs hc
      unique := hI.unique
      watcher := hI.watcher
      completion := hI.completion
      alive := hI.alive
      at_pc := fun g => by
        rcases hh g with e | ⟨rfl, e⟩
        · exact (hI.at_pc g).frame e (fun _ _ => .inl rfl) (fun _ _ => Iff.rfl)
        · rw [e]
          rfl
      unconfirmed := hI.unconfirmed }

/-- Every step with a fresh id keeps the leases in order. -/
theorem step (hI : Leases s) {l : Label} (hen : s.enabled l) (hfresh : FreshIds s l) :
    Leases (s.next l) := by
  cases l with
  | accept => exact hI.accept
  | greet f input => exact hI.greet hen.1 hen.2
  | receive f input around =>
    exact hI.received hen.1 (s.receive_received f around input hen.2 hI.alive)
  | sendReply f m after ok => exact hI.sendReply hen.1
  | drawId f resolved bytes => exact hI.drawId hen.1 hfresh
  | drawFailed f resolved =>
    have hpc : (s.handler f).pc = .startDraw resolved := hen
    exact hI.close ⟨rfl, rfl, rfl, rfl, rfl, rfl⟩ (by simp [hpc])
  | spawnAgent f id resolved spawned cleaned => exact hI.spawnAgent hen.1
  | insertSession f id pid resolved => exact hI.insertSession hen
  | spawnWatcher f st spawned cleaned => exact hI.spawnWatcher hen
  | forget f id error => exact hI.forget hen
  | spawnReader f st spawned => exact hI.spawnReader hen
  | checkStartable f st => exact hI.checkStartable hen
  | claim f st => exact hI.claim hen
  | sendStarted f st ok => exact hI.sendStarted hen.1
  | finishStart f st written => exact hI.finishStart hen
  | sendAttached f id pid lease ok => exact hI.sendAttached hen.1
  | activate f id => exact hI.activateController hen
  | signal f id cause ok => exact hI.requestStop hen
  | completed f id cause result => exact hI.completed hen.1 hen.2
  | disconnect f => exact hI.disconnectFrontend hen
  | agentExit id => exact hI.aside rfl rfl rfl rfl rfl rfl
  | agentKilled id => exact hI.aside rfl rfl rfl rfl rfl rfl
  | classify id => exact hI.classify hen.1 hen.2.2
  | reapGroup id note result =>
    have hw : s.watcher id = .reaping note := hen
    refine hI.watcher_step (by simp [hw]) ?_ rfl rfl rfl rfl rfl (.inl rfl)
    cases note <;> simp
  | notifyExit id note result ok =>
    have hw : s.watcher id = .notifying note result := hen.1
    exact hI.watcher_step (by simp [hw]) (by simp) rfl rfl rfl rfl rfl (.inl rfl)
  | finish id result guardian =>
    have hw : s.watcher id = .finishing result := hen
    exact hI.watcher_step (by simp [hw]) (by simp) rfl rfl rfl rfl rfl
      (.inr ⟨rfl, _, rfl⟩)
  | passGate id => exact hI.aside rfl rfl rfl rfl rfl rfl
  | readChunk id chunk => exact hI.aside rfl rfl rfl rfl rfl rfl
  | readEnd id => exact hI.aside rfl rfl rfl rfl rfl rfl
  | snapshot id chunk => exact hI.aside rfl rfl rfl rfl rfl rfl
  | lockWriter id out => exact hI.aside rfl rfl rfl rfl rfl rfl
  | recheck id out => exact hI.aside rfl rfl rfl rfl rfl rfl
  | writeOutput id out stillActive ok =>
    show Leases (s.writeOutput id out stillActive ok)
    unfold State.writeOutput
    split_ifs <;> exact hI.aside rfl rfl rfl rfl rfl rfl

end Leases

theorem leases_of_reachable {s : State} (h : (broker.restrict FreshIds).Reachable s) : Leases s :=
  h.invariant Leases.start fun _ _ _ hI hen => hI.step hen.1 hen.2

/-- `disconnect_frontend` has been through the map for this handler's frontend. -/
@[grind =] def Pc.Gone : Pc → Prop
  | .signalling _ (.gone _) | .awaiting _ (.gone _) | .closed => True
  | _ => False

/-- The two places of the lease agree: no frontend controls two sessions, between
two messages the map and the handler say the same, and a frontend that is gone
controls nothing. -/
theorem leases_agree {s : State} (h : (broker.restrict FreshIds).Reachable s) :
    (∀ f id id', s.Controls f id → s.Controls f id' → id = id') ∧
    (∀ f id, (s.handler f).pc = .idle →
      (s.Controls f id ↔ (s.sessions id).isSome ∧ (s.handler f).controlledSession = some id)) ∧
    ∀ f id, (s.handler f).pc.Gone → ¬ s.Controls f id := by
  have hI := leases_of_reachable h
  refine ⟨hI.unique, fun f id hpc => ?_, fun f id hgone hcon => ?_⟩
  · have hl : (s.handler f).leased = (s.handler f).controlledSession := by
      simp [Handler.leased, hpc]
    constructor
    · intro hcon
      have hc := hI.leased_of_controls (by simp [hpc]) hcon
      obtain ⟨session, c, hs, -⟩ := hcon
      exact ⟨by simp [hs], hl ▸ hc⟩
    · rintro ⟨hs, hc⟩
      obtain ⟨session, hs⟩ := Option.isSome_iff_exists.mp hs
      obtain ⟨c, hcon, hf⟩ := hI.must f id session (hl.trans hc) hs
      exact ⟨session, c, hs, hcon, hf⟩
  · have hnone : (s.handler f).leased = none ∧ (s.handler f).pc ≠ .closing := by
      unfold Pc.Gone at hgone
      split at hgone <;> simp_all [Handler.leased, Handler.stopping]
    simpa [hnone.1] using hI.leased_of_controls hnone.2 hcon

-- a frontend that says hello and starts an agent

def sampleHello : Message :=
  .hello 1 (utf8 "desktop") (List.replicate nonceHexLen 0x61) [utf8 "session-lifecycle-v1"] 4000
def sampleBytes : List UInt8 := List.replicate 16 7
def sampleId : Text := State.sessionIdOf sampleBytes
def sampleStarting : Starting := ⟨sampleId, 42, none, 0⟩

def frameOf (m : Message) : Input := .frame (some m.toValue)

def startRun : List Label :=
  [.greet 1 (frameOf sampleHello), .sendReply 1 (negotiate sampleHello) .idle true,
    .receive 1 (frameOf (.ptyStart (utf8 "codex") none [] 80 24)) ⟨none, true⟩,
    .drawId 1 none sampleBytes, .spawnAgent 1 sampleId none (.ok 42) true,
    .insertSession 1 sampleId 42 none, .spawnWatcher 1 sampleStarting (.ok ()) true,
    .spawnReader 1 sampleStarting (.ok ()), .checkStartable 1 sampleStarting,
    .claim 1 sampleStarting, .sendStarted 1 sampleStarting true,
    .finishStart 1 sampleStarting true]

theorem leases_agree_started : (broker.run broker.init startRun).Controls 1 sampleId := by
  have hv : (broker.restrict FreshIds).Valid (broker.restrict FreshIds).init startRun := by
    decide +kernel
  exact ((leases_agree (System.Reachable.run .init startRun hv)).2.1 1 sampleId
    (by decide)).mpr (by decide)

namespace State
variable {s s' : State} {f g : ℕ}

theorem Received.frame (h : s.Received f s') (hg : g ≠ f) : s'.handler g = s.handler g := by
  cases h <;> simp [setPc, setHandler, setSession, hg]

/-- Of the shared state one message changes the map alone. -/
theorem Received.rest (h : s.Received f s') :
    s'.watcher = s.watcher ∧ s'.group = s.group ∧ s'.reader = s.reader ∧
      s'.writerLock = s.writerLock ∧ s'.broken = s.broken ∧ s'.stream = s.stream ∧
      s'.drawn = s.drawn := by
  cases h <;> exact ⟨rfl, rfl, rfl, rfl, rfl, rfl, rfl⟩

/-- A step moves only the handler that takes it. -/
theorem handler_frame {l : Label} (hI : Leases s) (hen : s.enabled l) (hg : l.actor ≠ some g)
    (hpresent : l = .accept → (s.handler g).pc ≠ .absent) :
    (s.next l).handler g = s.handler g := by
  cases l with
  | accept =>
    have hne : g ≠ s.nextFrontendId := by
      rintro rfl
      exact hpresent rfl (by rw [hI.later _ le_rfl]; rfl)
    simp [next, setHandler, hne]
  | receive f input around =>
    exact (s.receive_received f around input hen.2 hI.alive).frame fun e => hg (e ▸ rfl)
  | _ =>
    simp only [Label.actor, ne_eq, Option.some.injEq, reduceCtorEq, not_false_eq_true] at hg
    simp only [next, greet, sendReply, drawId, spawnAgent, insertSession, spawnWatcher, forget,
      spawnReader, checkStartable, claim, exitedFirst, sendStarted, finishStart, sendAttached,
      activateController, requestStop, stopGroup, completed, disconnectFrontend, setGroup,
      removeAfterAgentExit, reapGroup, notifyExit, finishCompletion, setReader,
      snapshotController, lockWriter, recheck, writeOutput, setPc, setHandler, setSession,
      setWatcher, openGate, write, setWriterLock]
    repeat' split
    all_goals first | rfl | exact Function.update_of_ne (Ne.symm hg) _ _

/-- A step moves only the agent and the watcher that it names. -/
theorem agent_frame {l : Label} {id : Text} (hI : Leases s) (hen : s.enabled l)
    (hid : l.agent ≠ some id) :
    (s.next l).watcher id = s.watcher id ∧ (s.next l).group id = s.group id := by
  cases l with
  | receive f input around =>
    obtain ⟨hw, hg, -⟩ := (s.receive_received f around input hen.2 hI.alive).rest
    exact ⟨congrFun hw id, congrFun hg id⟩
  | _ =>
    simp only [Label.agent, ne_eq, Option.some.injEq, reduceCtorEq, not_false_eq_true] at hid
    simp only [next, greet, sendReply, drawId, spawnAgent, insertSession, spawnWatcher, forget,
      spawnReader, checkStartable, claim, exitedFirst, sendStarted, finishStart, sendAttached,
      activateController, requestStop, stopGroup, completed, disconnectFrontend, setGroup,
      removeAfterAgentExit, reapGroup, notifyExit, finishCompletion, setReader,
      snapshotController, lockWriter, recheck, writeOutput, setPc, setHandler, setSession,
      setWatcher, openGate, write, setWriterLock]
    repeat' split
    all_goals first | exact ⟨rfl, rfl⟩ | exact ⟨trivial, trivial⟩ | simp [Ne.symm hid]

/-- A handler about to signal does nothing else. -/
theorem signalling_frame {l : Label} {id : Text} {cause : Cause} (hI : Leases s)
    (hpc : s.At f (.signalling id cause)) (hen : s.enabled l)
    (hl : ∀ ok, l ≠ .signal f id cause ok) : (s.next l).At f (.signalling id cause) := by
  have hpc' : (s.handler f).pc = .signalling id cause := hpc
  by_cases ha : l.actor = some f
  · cases l with
    | signal g id' cause' ok =>
      obtain rfl : g = f := by simpa [Label.actor] using ha
      have h : Pc.signalling id cause = .signalling id' cause' := hpc'.symm.trans hen
      obtain ⟨rfl, rfl⟩ : id = id' ∧ cause = cause' := by simpa using h
      exact absurd rfl (hl ok)
    | _ =>
      simp only [Label.actor, Option.some.injEq, reduceCtorEq] at ha <;> subst ha <;>
        simp [enabled, At, hpc'] at hen
  · unfold At
    rw [handler_frame hI hen ha (by simp [hpc']), hpc']

/-- The ids the broker draws are legal on the wire. -/
theorem sessionIdOf_legal {bytes : List UInt8} (h : bytes.length = 16) :
    sessionIdIsLegal (sessionIdOf bytes) = .ok () := by
  have digit : ∀ n < 16, (isAsciiDigit (hexDigit n) ||
      (0x61 ≤ hexDigit n ∧ hexDigit n ≤ 0x66 : Bool)) = true := by decide
  have hlen : (sessionIdOf bytes).length = maxSessionIdHex := by
    simp [sessionIdOf, List.length_flatMap, h, maxSessionIdHex]
  have hall : (sessionIdOf bytes).all fun c =>
      isAsciiDigit c || (0x61 ≤ c ∧ c ≤ 0x66) := by
    rw [List.all_eq_true]
    intro c hc
    obtain ⟨b, -, hc⟩ := List.mem_flatMap.mp hc
    have hb : b.toNat < 256 := b.toNat_lt
    simp only [List.mem_cons, List.not_mem_nil, or_false] at hc
    rcases hc with rfl | rfl
    · exact digit _ (by omega)
    · exact digit _ (by omega)
  unfold sessionIdIsLegal
  rw [if_neg (not_or.mpr ⟨not_not.mpr hlen, not_not.mpr hall⟩)]

theorem drawn_step {l : Label} (hI : Leases s) (hen : s.enabled l) :
    (s.next l).drawn = s.drawn ∨ ∃ f resolved bytes, l = .drawId f resolved bytes ∧
      bytes.length = 16 ∧ (s.next l).drawn = sessionIdOf bytes :: s.drawn := by
  cases l with
  | receive f input around =>
    exact .inl (s.receive_received f around input hen.2 hI.alive).rest.2.2.2.2.2.2
  | drawId f resolved bytes =>
    refine .inr ⟨f, resolved, bytes, rfl, hen.2, ?_⟩
    simp only [next, drawId]
    repeat' split
    all_goals rfl
  | _ =>
    left
    simp only [next, greet, sendReply, spawnAgent, insertSession, spawnWatcher, forget,
      spawnReader, checkStartable, claim, exitedFirst, sendStarted, finishStart, sendAttached,
      activateController, requestStop, stopGroup, completed, disconnectFrontend, setGroup,
      removeAfterAgentExit, reapGroup, notifyExit, finishCompletion, setReader,
      snapshotController, lockWriter, recheck, writeOutput, setPc, setHandler, setSession,
      setWatcher, openGate, write, setWriterLock]
    repeat' split
    all_goals rfl

end State

theorem drawn_legal {s : State} (h : (broker.restrict FreshIds).Reachable s) {id : Text}
    (hid : id ∈ s.drawn) : sessionIdIsLegal id = .ok () := by
  have hall : ∀ id ∈ s.drawn, sessionIdIsLegal id = .ok () := by
    refine h.invariant (P := fun s => ∀ id ∈ s.drawn, sessionIdIsLegal id = .ok ())
      (fun id hid => by simp [broker, System.restrict, State.start] at hid) ?_
    intro t l ht hP hen id hid
    rcases State.drawn_step (leases_of_reachable ht) hen.1 with e | ⟨f, resolved, bytes, -, hlen, e⟩
    · exact hP id (e ▸ hid)
    · have hid : id ∈ State.sessionIdOf bytes :: t.drawn := e ▸ hid
      rcases List.mem_cons.mp hid with rfl | hid
      · exact State.sessionIdOf_legal hlen
      · exact hP id hid
  exact hall id hid

end Winsmux.RemoteHelper
