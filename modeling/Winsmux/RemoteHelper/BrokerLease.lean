import Winsmux.RemoteHelper.Broker

/-!
# Who holds which lease

The lease on a session is kept twice, as the handler's `controlledSession` and as
the session's controller. `Leases` relates the two at every point of every thread.
-/
namespace Winsmux.RemoteHelper
open Json Transition

/-- The id that a start has drawn and not yet inserted. -/
def Pc.unpublished : Pc → Option Text
  | .startSpawn id _ | .startInsert id _ _ => some id
  | _ => none

/-- The session a handler stops a group for, when it still holds its lease. -/
def Handler.stopping (h : Handler) (id : Text) : Cause → Option Text
  | .failedStart | .noReader _ => some id
  | .detach | .stop => h.controlledSession
  | .gone _ => none

/-- The one session whose controller can be this handler's frontend. -/
def Handler.leased (h : Handler) : Option Text :=
  match h.pc with
  | .absent | .greeting | .closing | .closed | .startSpawn .. | .startInsert .. => none
  | .startWatcher st | .startReader st | .startCheck st | .startClaim st | .startSend st
  | .startFinish st _ => some st.id
  | .startForget id _ => some id
  | .signalling id cause | .awaiting id cause => h.stopping id cause
  | .idle | .replying .. | .startDraw _ | .attachSend .. | .attachActivate _ => h.controlledSession

/-- The lease that a handler installs for its frontend, not active yet. -/
def Handler.lease (h : Handler) (f lease : ℕ) : Controller :=
  ⟨f, false, h.peerFrameLimit, h.lifecycleEnabled, lease⟩

/-- A session as its start left it, with the lease `c`. -/
structure Session.Starting (session : Session) (phase : WritePhase) (c : Controller) : Prop where
  writePhase : session.writePhase = phase
  starter : session.starter = c.frontendId
  startConfirmed : session.startConfirmed = false
  stopInFlight : session.stopInFlight = false
  agentExited : session.agentExited = false
  controller : session.controller = some c

namespace Session
variable {session : Session} {f : ℕ}

theorem controlledBy_iff : session.controlledBy f = true ↔
    ∃ c, session.controller = some c ∧ c.frontendId = f := by
  simp [controlledBy, Option.any_eq_true]

theorem unconfirmedBy_iff : session.unconfirmedBy f = true ↔
    (session.writePhase = .written ∧ session.startConfirmed = false) ∧
      ∃ c, session.controller = some c ∧ c.frontendId = f ∧ c.lifecycleEnabled = true := by
  simp [unconfirmedBy, Option.any_eq_true]

end Session

/-- The messages that answer a message. -/
def Message.IsReply : Message → Prop
  | .welcome .. | .reject .. | .ptyDetached | .ptyStopped => True
  | _ => False

theorem negotiate_isReply (m : Message) : (negotiate m).IsReply := by
  unfold negotiate
  dsimp only
  repeat' split
  all_goals trivial

namespace State

theorem controls_iff {s : State} {f : ℕ} {id : Text} :
    s.Controls f id ↔ ∃ session, s.sessions id = some session ∧ session.controlledBy f = true := by
  simp [Controls, Session.controlledBy_iff]

/-- Nothing has been done with the id yet. -/
structure Untouched (s : State) (id : Text) : Prop where
  session : s.sessions id = none
  watcher : s.watcher id = .absent
  completion : s.completion id = none
  controlled : ∀ f, (s.handler f).controlledSession ≠ some id
  leased : ∀ f, (s.handler f).leased ≠ some id

/-- What a handler knows where it stands. -/
def AtPc (s : State) (f : ℕ) (h : Handler) : Prop :=
  match h.pc with
  | .greeting | .startDraw _ | .startSpawn .. | .startInsert .. => h.controlledSession = none
  | .startWatcher st => h.controlledSession = none ∧ s.watcher st.id = .absent ∧
      ∃ session, s.sessions st.id = some session ∧ session.Starting .pending (h.lease f st.lease)
  | .startForget id _ => h.controlledSession = none ∧ s.watcher id = .absent ∧
      ∃ session lease, s.sessions id = some session ∧ session.Starting .pending (h.lease f lease)
  | .startReader st | .startCheck st | .startClaim st =>
    h.controlledSession = none ∧ s.watcher st.id ≠ .absent ∧
      ∀ session, s.sessions st.id = some session → session.Starting .pending (h.lease f st.lease)
  | .startSend st => h.controlledSession = none ∧ s.watcher st.id ≠ .absent ∧
      ∃ session, s.sessions st.id = some session ∧ session.Starting .writing (h.lease f st.lease)
  | .startFinish st written =>
    h.controlledSession = (if written then some st.id else none) ∧ s.watcher st.id ≠ .absent ∧
      ∃ session, s.sessions st.id = some session ∧ session.Starting .writing (h.lease f st.lease)
  | .attachSend id _ lease => h.controlledSession = some id ∧
      ∀ session, s.sessions id = some session → session.controller = some (h.lease f lease)
  | .attachActivate id => h.controlledSession = some id ∧
      ∀ session c, s.sessions id = some session → session.controller = some c → c.active = false
  | .signalling id cause | .awaiting id cause =>
    match cause with
    | .failedStart | .noReader _ => h.controlledSession = none ∧ s.watcher id ≠ .absent
    | .detach => h.controlledSession = none
    | .stop => h.controlledSession = some id
    | .gone _ => True
  | .replying m _ => m.IsReply ∧ (m = .ptyDetached ∨ m = .ptyStopped → h.controlledSession = none)
  | .absent | .idle | .closing | .closed => True

end State

structure Leases (s : State) : Prop where
  later : ∀ f, s.nextFrontendId ≤ f → s.handler f = .new .absent
  fresh : ∀ id, id ∉ s.drawn → s.Untouched id ∧ ∀ f, (s.handler f).pc.unpublished ≠ some id
  unpublished : ∀ f id, (s.handler f).pc.unpublished = some id →
    s.Untouched id ∧ ∀ g, (s.handler g).pc.unpublished = some id → g = f
  must : ∀ f id session, (s.handler f).leased = some id → s.sessions id = some session →
    ∃ c, session.controller = some c ∧ c.frontendId = f
  may : ∀ id session c, s.sessions id = some session → session.controller = some c →
    (s.handler c.frontendId).pc = .closing ∨ (s.handler c.frontendId).leased = some id
  unique : ∀ f id id', s.Controls f id → s.Controls f id' → id = id'
  watcher : ∀ id session, s.sessions id = some session →
    s.watcher id = .waiting ∨ s.watcher id = .absent ∧ session.writePhase = .pending
  completion : ∀ id, s.completion id ≠ none → s.watcher id = .done
  alive : ∀ id session, s.sessions id = some session → session.agentExited = false
  at_pc : ∀ f, s.AtPc f (s.handler f)
  unconfirmed : ∀ id session, s.sessions id = some session → session.writePhase = .written →
    session.startConfirmed = false →
    ∃ c, session.controller = some c ∧ c.frontendId = session.starter ∧ c.lifecycleEnabled = true

namespace Leases
variable {s : State} {f : ℕ}

theorem start : Leases State.start where
  later f hf := by
    have : f ≠ 1 := by
      rintro rfl
      exact absurd hf (by decide)
    simp [State.start, this]
  fresh id _ := by
    constructor
    · constructor <;> intros <;> simp [State.start, Handler.new] <;> split <;> simp [Handler.leased]
    · intro f
      simp only [State.start]
      split <;> simp [Handler.new, Pc.unpublished]
  unpublished f id h := by
    simp only [State.start] at h
    split at h <;> simp [Handler.new, Pc.unpublished] at h
  must f id session _ h := by simp [State.start] at h
  may id session c h := by simp [State.start] at h
  unique f id id' h := by simp [State.start, State.Controls] at h
  watcher id session h := by simp [State.start] at h
  completion id h := by simp [State.start] at h
  alive id session h := by simp [State.start] at h
  at_pc f := by
    simp only [State.start]
    split <;> simp [State.AtPc, Handler.new]
  unconfirmed id session h := by simp [State.start] at h

theorem known_of_session (hI : Leases s) {id : Text} {session : Session}
    (h : s.sessions id = some session) :
    id ∈ s.drawn ∧ ∀ g, (s.handler g).pc.unpublished ≠ some id := by
  constructor
  · by_contra hid
    simp [(hI.fresh id hid).1.session] at h
  · intro g hg
    simp [(hI.unpublished g id hg).1.session] at h

theorem known_of_leased (hI : Leases s) {id : Text}
    (h : (s.handler f).leased = some id ∨ (s.handler f).controlledSession = some id) :
    id ∈ s.drawn ∧ ∀ g, (s.handler g).pc.unpublished ≠ some id := by
  have not_untouched : ¬ s.Untouched id := fun hu =>
    h.elim (hu.leased f) (hu.controlled f)
  exact ⟨by_contra fun hid => not_untouched (hI.fresh id hid).1,
    fun g hg => not_untouched (hI.unpublished g id hg).1⟩

theorem leased_of_controls (hI : Leases s) (hpc : (s.handler f).pc ≠ .closing) {id : Text}
    (h : s.Controls f id) : (s.handler f).leased = some id := by
  obtain ⟨session, c, hs, hc, rfl⟩ := h
  exact (hI.may id session c hs hc).resolve_left hpc

/-- Nobody else holds the lease on a session that `f` controls. -/
theorem not_leased_of_controls (hI : Leases s) {id : Text} (h : s.Controls f id) {g : ℕ}
    (hg : g ≠ f) : (s.handler g).leased ≠ some id := by
  obtain ⟨session, c, hs, hc, rfl⟩ := h
  intro hl
  obtain ⟨c', hc', rfl⟩ := hI.must g id session hl hs
  rw [hc] at hc'
  exact hg (by cases hc'; rfl)

end Leases

/-- `AtPc` depends on the map and the watchers only at the leased session; it also
survives the session's removal by a watcher. -/
theorem State.AtPc.frame {s s' : State} {g : ℕ} (h : s.AtPc g (s.handler g))
    (hh : s'.handler g = s.handler g)
    (hs : ∀ id, (s.handler g).leased = some id → s'.sessions id = s.sessions id ∨
      s'.sessions id = none ∧ s.watcher id ≠ .absent ∧ s.announced id)
    (hw : ∀ id, (s.handler g).leased = some id →
      (s'.watcher id = .absent ↔ s.watcher id = .absent)) :
    s'.AtPc g (s'.handler g) := by
  rw [hh]
  unfold State.AtPc at h ⊢
  unfold Handler.leased at hs hw
  split at h <;> simp_all [State.announced, Handler.stopping]
  all_goals grind [Session.Starting]

/-- Drawn, and not waiting to be inserted by another handler. -/
def State.Known (s : State) (f : ℕ) (id : Text) : Prop :=
  id ∈ s.drawn ∧ ∀ g, g ≠ f → (s.handler g).pc.unpublished ≠ some id

/-- No other handler relies on the session. -/
def State.Mine (s : State) (f : ℕ) (id : Text) : Prop :=
  s.Known f id ∧ ∀ g, g ≠ f → (s.handler g).leased ≠ some id

/-- What a step of handler `f` has to show: it changes only what is its own and
leaves itself where its own lease is in order. -/
structure HandlerStep (s s' : State) (f : ℕ) : Prop where
  next : s'.nextFrontendId = s.nextFrontendId
  present : (s.handler f).pc ≠ .absent
  others : ∀ g, g ≠ f → s'.handler g = s.handler g
  drawn : s'.drawn = s.drawn
  completion : s'.completion = s.completion
  frame : ∀ id, s'.sessions id = s.sessions id ∧ s'.watcher id = s.watcher id ∨ s.Mine f id
  known : ∀ id, (s'.handler f).controlledSession = some id ∨ (s'.handler f).leased = some id →
    s.Known f id
  unpublished : ∀ id, (s'.handler f).pc.unpublished = some id → s.Known f id ∧ s'.Untouched id
  must : ∀ id session, (s'.handler f).leased = some id → s'.sessions id = some session →
    ∃ c, session.controller = some c ∧ c.frontendId = f
  may : ∀ id session c, s'.sessions id = some session → session.controller = some c →
    c.frontendId = f ∧ ((s'.handler f).pc = .closing ∨ (s'.handler f).leased = some id) ∨
    c.frontendId ≠ f ∧ s.sessions id = some session
  unique : (s'.handler f).pc = .closing → ∀ id, s'.Controls f id → s.Controls f id
  watcher : ∀ id session, s'.sessions id = some session →
    s'.watcher id = .waiting ∨ s'.watcher id = .absent ∧ session.writePhase = .pending
  completed : ∀ id, s.completion id ≠ none → s'.watcher id = .done
  alive : ∀ id session, s'.sessions id = some session → session.agentExited = false
  at_pc : s'.AtPc f (s'.handler f)
  unconfirmed : ∀ id session, s'.sessions id = some session → session.writePhase = .written →
    session.startConfirmed = false →
    ∃ c, session.controller = some c ∧ c.frontendId = session.starter ∧ c.lifecycleEnabled = true

/-- Of what `Leases` is about, only handler `f` has changed, to `h`. -/
structure Moved (s s' : State) (f : ℕ) (h : Handler) : Prop where
  next : s'.nextFrontendId = s.nextFrontendId
  handler : s'.handler = Function.update s.handler f h
  sessions : s'.sessions = s.sessions
  watcher : s'.watcher = s.watcher
  drawn : s'.drawn = s.drawn
  completion : s'.completion = s.completion

/-- A step that leaves the map and the watchers alone and takes handler `f` to `h`. -/
structure LocalStep (s s' : State) (f : ℕ) (h : Handler) : Prop extends Moved s s' f h where
  pc : (s.handler f).pc ≠ .closing ∧ (s.handler f).pc ≠ .absent
  leased : h.leased = (s.handler f).leased ∨ h.leased = none ∧
    (h.pc = .closing ∨ ∀ id, ¬ s.Controls f id)
  controlled : h.controlledSession = none ∨
    h.controlledSession = (s.handler f).controlledSession ∨
    h.controlledSession = (s.handler f).leased
  unpublished : ∀ id, h.pc.unpublished = some id → (s.handler f).pc.unpublished = some id
  at_pc : s'.AtPc f h

namespace Leases
variable {s s' : State} {f : ℕ}

theorem mine_of_controls (hI : Leases s) {id : Text} (h : s.Controls f id) : s.Mine f id := by
  obtain ⟨session, c, hs, hc⟩ := h
  obtain ⟨hd, hu⟩ := hI.known_of_session hs
  exact ⟨⟨hd, fun g _ => hu g⟩, fun g hg => hI.not_leased_of_controls ⟨session, c, hs, hc⟩ hg⟩

theorem untouched_step (h : HandlerStep s s' f) {id : Text}
    (hu : s.Untouched id) (hk : ¬ s.Known f id) : s'.Untouched id := by
  have hsame := (h.frame id).resolve_right fun hm => hk hm.1
  refine ⟨hsame.1.trans hu.session, hsame.2.trans hu.watcher, by rw [h.completion, hu.completion],
    fun g => ?_, fun g => ?_⟩ <;> by_cases hg : g = f
  · exact hg ▸ fun e => hk (h.known id (.inl e))
  · rw [h.others g hg]
    exact hu.controlled g
  · exact hg ▸ fun e => hk (h.known id (.inr e))
  · rw [h.others g hg]
    exact hu.leased g

theorem handler_step (hI : Leases s) (h : HandlerStep s s' f) : Leases s' where
  later g hg := by
    rw [h.next] at hg
    have hne : g ≠ f := by
      rintro rfl
      exact h.present (by rw [hI.later g hg]; rfl)
    rw [h.others g hne]
    exact hI.later g hg
  fresh id hid := by
    rw [h.drawn] at hid
    obtain ⟨hu, hn⟩ := hI.fresh id hid
    refine ⟨untouched_step h hu fun hk => hid hk.1, fun g => ?_⟩
    by_cases hg : g = f
    · exact hg ▸ fun e => hid (h.unpublished id e).1.1
    · rw [h.others g hg]
      exact hn g
  unpublished g id hid := by
    by_cases hg : g = f
    · subst hg
      obtain ⟨hk, hu⟩ := h.unpublished id hid
      refine ⟨hu, fun g' hg' => ?_⟩
      by_contra hne
      rw [h.others g' hne] at hg'
      exact hk.2 g' hne hg'
    · rw [h.others g hg] at hid
      obtain ⟨hu, hinj⟩ := hI.unpublished g id hid
      refine ⟨untouched_step h hu fun hk => hk.2 g hg hid, fun g' hg' => ?_⟩
      by_cases hf : g' = f
      · subst hf
        exact absurd hid ((h.unpublished id hg').1.2 g (fun e => hg (e ▸ rfl)))
      · rw [h.others g' hf] at hg'
        exact hinj g' hg'
  must g id session hl hs := by
    by_cases hg : g = f
    · subst hg
      exact h.must id session hl hs
    · rw [h.others g hg] at hl
      rcases h.frame id with e | hm
      · exact hI.must g id session hl (e.1 ▸ hs)
      · exact absurd hl (hm.2 g hg)
  may id session c hs hc := by
    rcases h.may id session c hs hc with ⟨rfl, hl⟩ | ⟨hg, hold⟩
    · exact hl
    · rw [h.others _ hg]
      exact hI.may id session c hold hc
  unique g id id' hid hid' := by
    have hold : (g = f → (s'.handler f).pc = .closing) → ∀ id, s'.Controls g id → s.Controls g id := by
      intro hpc id hid
      by_cases hg : g = f
      · subst hg
        exact h.unique (hpc rfl) id hid
      · obtain ⟨session, c, hs, hc, rfl⟩ := hid
        obtain ⟨e, -⟩ | ⟨-, hs'⟩ := h.may id session c hs hc
        · exact absurd e hg
        · exact ⟨session, c, hs', hc, rfl⟩
    by_cases hg : g = f ∧ (s'.handler f).pc ≠ .closing
    · have leased : ∀ id, s'.Controls g id → (s'.handler f).leased = some id := by
        rintro id ⟨session, c, hs, hc, e⟩
        obtain ⟨-, hl⟩ | ⟨hne, -⟩ := h.may id session c hs hc
        · exact hl.resolve_left hg.2
        · exact absurd (e.trans hg.1) hne
      have e := (leased id hid).symm.trans (leased id' hid')
      simpa using e
    · have hpc : g = f → (s'.handler f).pc = .closing := by
        intro e
        by_contra hne
        exact hg ⟨e, hne⟩
      exact hI.unique g id id' (hold hpc id hid) (hold hpc id' hid')
  watcher := h.watcher
  completion id hc := h.completed id (h.completion ▸ hc)
  alive := h.alive
  at_pc g := by
    by_cases hg : g = f
    · exact hg ▸ h.at_pc
    · have same : ∀ id, (s.handler g).leased = some id →
          s'.sessions id = s.sessions id ∧ s'.watcher id = s.watcher id :=
        fun id hl => (h.frame id).resolve_right fun hm => hm.2 g hg hl
      exact (hI.at_pc g).frame (h.others g hg) (fun id hl => .inl (same id hl).1)
        (fun id hl => by rw [(same id hl).2])
  unconfirmed := h.unconfirmed

theorem local_step {h' : Handler} (hI : Leases s) (h : LocalStep s s' f h') : Leases s' := by
  have self : s'.handler f = h' := by simp [h.handler]
  have others : ∀ g, g ≠ f → s'.handler g = s.handler g := fun g hg => by simp [h.handler, hg]
  have leased : ∀ id, h'.leased = some id → (s.handler f).leased = some id := by
    intro id hl
    rcases h.leased with e | ⟨e, -⟩ <;> rw [e] at hl
    · exact hl
    · simp at hl
  have known : ∀ id, h'.controlledSession = some id ∨ h'.leased = some id →
      (s.handler f).leased = some id ∨ (s.handler f).controlledSession = some id := by
    rintro id (hc | hl)
    · rcases h.controlled with e | e | e <;> rw [e] at hc
      · simp at hc
      · exact .inr hc
      · exact .inl hc
    · exact .inl (leased id hl)
  refine hI.handler_step (f := f)
    { next := h.next
      present := h.pc.2
      others := others
      drawn := h.drawn
      completion := h.completion
      frame := fun id => .inl ⟨by rw [h.sessions], by rw [h.watcher]⟩
      known := fun id hid =>
        have hk := hI.known_of_leased (known id (self ▸ hid))
        ⟨hk.1, fun g _ => hk.2 g⟩
      unpublished := fun id hid => ?unpublished
      must := fun id session hl hs => hI.must f id session (leased id (self ▸ hl)) (h.sessions ▸ hs)
      may := fun id session c hs hc => ?may
      unique := fun _ id hid => by unfold State.Controls at hid ⊢; rwa [h.sessions] at hid
      watcher := fun id session hs => by
        rw [h.sessions] at hs
        rw [h.watcher]
        exact hI.watcher id session hs
      completed := fun id hc => by rw [h.watcher]; exact hI.completion id hc
      alive := fun id session hs => hI.alive id session (h.sessions ▸ hs)
      at_pc := self.symm ▸ h.at_pc
      unconfirmed := fun id session hs => hI.unconfirmed id session (h.sessions ▸ hs) }
  case unpublished =>
    have hid' := h.unpublished id (self ▸ hid)
    obtain ⟨hu, hinj⟩ := hI.unpublished f id hid'
    refine ⟨⟨by_contra fun hd => (hI.fresh id hd).2 f hid', fun g hg e => hg (hinj g e)⟩, ?_⟩
    have not_known := fun e => (known id e).elim (hu.leased f) (hu.controlled f)
    refine ⟨by rw [h.sessions, hu.session], by rw [h.watcher, hu.watcher],
      by rw [h.completion, hu.completion], fun g => ?_, fun g => ?_⟩ <;> by_cases hg : g = f
    · rw [hg, self]
      exact fun e => not_known (.inl e)
    · rw [others g hg]
      exact hu.controlled g
    · rw [hg, self]
      exact fun e => not_known (.inr e)
    · rw [others g hg]
      exact hu.leased g
  case may =>
    rw [self]
    rw [h.sessions] at hs
    by_cases hf : c.frontendId = f
    · have hl := hI.leased_of_controls h.pc.1 ⟨session, c, hs, hc, hf⟩
      rcases h.leased with e | ⟨-, e | e⟩
      · exact .inl ⟨hf, .inr (e.trans hl)⟩
      · exact .inl ⟨hf, .inl e⟩
      · exact absurd ⟨session, c, hs, hc, hf⟩ (e id)
    · exact .inr ⟨hf, hs⟩

end Leases

/-- A step on one session that nobody else relies on; it takes handler `f` to `h`
and the session to `new`. -/
structure SessionStep (s s' : State) (f : ℕ) (h : Handler) (id : Text) (new : Option Session) :
    Prop where
  next : s'.nextFrontendId = s.nextFrontendId
  handler : s'.handler = Function.update s.handler f h
  sessions : s'.sessions = Function.update s.sessions id new
  watcher : s'.watcher = s.watcher
  drawn : s'.drawn = s.drawn
  completion : s'.completion = s.completion
  mine : s.Mine f id
  pc : (s.handler f).pc ≠ .closing ∧ (s.handler f).pc ≠ .absent
  before : (s.handler f).leased = some id ∨ (s.handler f).leased = none
  leased : h.leased = some id ∨ h.leased = none
  controlled : h.controlledSession = some id ∨ h.controlledSession = none
  unpublished : h.pc.unpublished = none
  lease : ∀ session, new = some session →
    h.leased = some id ∧ (∃ c, session.controller = some c ∧ c.frontendId = f) ∨
    h.leased = none ∧ session.controller = none
  session : ∀ session, new = some session →
    (s.watcher id = .waiting ∨ s.watcher id = .absent ∧ session.writePhase = .pending) ∧
    session.agentExited = false ∧ (session.writePhase = .written → session.startConfirmed = false →
      ∃ c, session.controller = some c ∧ c.frontendId = session.starter ∧ c.lifecycleEnabled = true)
  at_pc : s'.AtPc f h

theorem Leases.session_step {s s' : State} {f : ℕ} {h' : Handler} {id : Text}
    {new : Option Session} (hI : Leases s) (h : SessionStep s s' f h' id new) : Leases s' := by
  have self : s'.handler f = h' := by simp [h.handler]
  have same : s'.sessions id = new := by simp [h.sessions]
  have sessions : ∀ id', id' ≠ id → s'.sessions id' = s.sessions id' :=
    fun id' hne => by simp [h.sessions, hne]
  -- A session other than `id` is as it was, and `f` does not control it.
  have other : ∀ id', id' ≠ id → s'.sessions id' = s.sessions id' ∧ ¬ s.Controls f id' := by
    refine fun id' hne => ⟨sessions id' hne, fun hcon => ?_⟩
    have hl := hI.leased_of_controls h.pc.1 hcon
    rcases h.before with e | e <;> rw [e] at hl
    · exact hne (Option.some.inj hl).symm
    · simp at hl
  have eq_of_leased : ∀ id', (s'.handler f).leased = some id' → id' = id := by
    intro id' hl
    rw [self] at hl
    rcases h.leased with e | e <;> rw [e] at hl
    · exact (Option.some.inj hl).symm
    · simp at hl
  refine hI.handler_step (f := f)
    { next := h.next
      present := h.pc.2
      others := fun g hg => by simp [h.handler, hg]
      drawn := h.drawn
      completion := h.completion
      frame := fun id' => ?frame
      known := fun id' hid => ?known
      unpublished := fun id' hid => by simp [self, h.unpublished] at hid
      must := fun id' session hl hs => ?must
      may := fun id' session c hs hc => ?may
      unique := fun hpc id' hid => ?unique
      watcher := fun id' session hs => ?watcher
      completed := fun id' hc => by rw [h.watcher]; exact hI.completion id' hc
      alive := fun id' session hs => ?alive
      at_pc := self.symm ▸ h.at_pc
      unconfirmed := fun id' session hs => ?unconfirmed }
  case frame =>
    by_cases hid : id' = id
    · exact .inr (hid ▸ h.mine)
    · exact .inl ⟨sessions id' hid, by rw [h.watcher]⟩
  case known =>
    have e : id' = id := by
      rcases hid with hc | hl
      · rw [self] at hc
        rcases h.controlled with e | e <;> rw [e] at hc
        · exact (Option.some.inj hc).symm
        · simp at hc
      · exact eq_of_leased id' hl
    exact e ▸ h.mine.1
  case must =>
    obtain rfl := eq_of_leased id' hl
    rw [self] at hl
    obtain ⟨-, hc⟩ | ⟨hn, -⟩ := h.lease session (same ▸ hs)
    · exact hc
    · simp [hn] at hl
  case may =>
    rw [self]
    by_cases hid : id' = id
    · subst hid
      obtain ⟨hl, c', hc', hf⟩ | ⟨-, hn⟩ := h.lease session (same ▸ hs)
      · obtain rfl : c' = c := by simpa [hc'] using hc
        exact .inl ⟨hf, .inr hl⟩
      · simp [hn] at hc
    · obtain ⟨e, hnc⟩ := other id' hid
      rw [e] at hs
      exact .inr ⟨fun hf => hnc ⟨session, c, hs, hc, hf⟩, hs⟩
  case unique =>
    by_cases hne : id' = id
    · subst hne
      obtain ⟨session, c, hs, hc, -⟩ := hid
      rw [self] at hpc
      obtain ⟨hl, -⟩ | ⟨-, hn⟩ := h.lease session (same ▸ hs)
      · simp [Handler.leased, hpc] at hl
      · simp [hn] at hc
    · unfold State.Controls at hid ⊢
      rwa [sessions id' hne] at hid
  case watcher =>
    rw [h.watcher]
    by_cases hid : id' = id
    · subst hid
      exact (h.session session (same ▸ hs)).1
    · exact hI.watcher id' session (sessions id' hid ▸ hs)
  case alive =>
    by_cases hid : id' = id
    · subst hid
      exact (h.session session (same ▸ hs)).2.1
    · exact hI.alive id' session (sessions id' hid ▸ hs)
  case unconfirmed =>
    by_cases hid : id' = id
    · subst hid
      exact (h.session session (same ▸ hs)).2.2
    · exact hI.unconfirmed id' session (sessions id' hid ▸ hs)

namespace State
variable (s : State) (f : ℕ)

/-- A reply that changes no lease: a reject, or the answer to a detach that had
nothing to give back. -/
def Quiet (controlled : Option Text) : Pc → Prop
  | .idle | .closing => True
  | .replying m _ => m.IsReply ∧ (m = .ptyDetached ∨ m = .ptyStopped → controlled = none)
  | .startDraw _ => controlled = none
  | _ => False

/-- Everything the critical section of one received message can do. -/
inductive Received : State → Prop
  /-- Only the handler moves; it forgets its session only when it has lost it. -/
  | answer (pc : Pc) (controlled : Option Text) :
    controlled = (s.handler f).controlledSession ∨ controlled = none ∧
      (∀ id, (s.handler f).controlledSession = some id → ¬ s.Controls f id) →
    Quiet controlled pc →
    Received (s.setHandler f { s.handler f with pc := pc, controlledSession := controlled })
  | ack (id : Text) (session : Session) : s.sessions id = some session →
    session.writePhase = .written → (s.handler f).controlledSession = some id →
    session.controlledBy f →
    Received ((s.setSession id (some { session with startConfirmed := true })).setPc f .idle)
  | attach (id : Text) (session : Session) : s.sessions id = some session →
    (s.handler f).controlledSession = none → session.controller = none →
    Received ({ s.setSession id (some { session with
        controller := some ((s.handler f).lease f s.leases) }) with
        leases := s.leases + 1 }.setHandler f { s.handler f with
          controlledSession := some id, pc := .attachSend id session.childPid s.leases })
  | abandon (id : Text) (session : Session) : s.sessions id = some session →
    (s.handler f).controlledSession = some id → session.unconfirmedBy f →
    Received ((s.setSession id none).setHandler f
      { s.handler f with controlledSession := none, pc := .signalling id .detach })
  | release (id : Text) (session : Session) : s.sessions id = some session →
    (s.handler f).controlledSession = some id → session.controlledBy f →
    ¬ session.unconfirmedBy f →
    Received ((s.setSession id (some session.release)).setHandler f
      { s.handler f with controlledSession := none, pc := .replying .ptyDetached .idle })
  | stop (id : Text) (session : Session) (c : Controller) : s.sessions id = some session →
    (s.handler f).controlledSession = some id → session.controller = some c → c.frontendId = f →
    Received ((s.setSession id (some { session with
      controller := some { c with active := false }, stopInFlight := true })).setPc f
      (.signalling id .stop))

@[simp] theorem setHandler_setPc (h : Handler) (pc : Pc) :
    (s.setHandler f h).setPc f pc = s.setHandler f { h with pc := pc } := by
  simp [setHandler, setPc]

@[simp] theorem setHandler_setSession_setPc (h : Handler) (id : Text) (session : Option Session)
    (pc : Pc) : ((s.setHandler f h).setSession id session).setPc f pc =
      (s.setSession id session).setHandler f { h with pc := pc } := by
  simp [setHandler, setPc, setSession]

theorem received_setPc {s : State} {f : ℕ} {pc : Pc} (h : Quiet (s.handler f).controlledSession pc) :
    s.Received f (s.setPc f pc) :=
  .answer pc _ (.inl rfl) h

theorem quiet_reject (controlled : Option Text) (code : RejectCode) (detail : Text) (after : After) :
    Quiet controlled (.replying (rejectWith code detail) after) :=
  ⟨trivial, by simp [rejectWith]⟩

theorem quiet_detached : Quiet none (.replying .ptyDetached .idle) := ⟨trivial, fun _ => rfl⟩

theorem received_reject (code : RejectCode) (detail : String) :
    s.Received f (s.setPc f (reject code detail)) :=
  received_setPc (quiet_reject ..)

/-- A handler that forgets a session it does not control any more. -/
theorem received_lost {s : State} {f : ℕ} {id : Text} {pc : Pc}
    (hc : (s.handler f).controlledSession = some id)
    (hlost : ∀ session, s.sessions id = some session → ¬ session.controlledBy f)
    (hq : Quiet none pc) :
    s.Received f (s.setHandler f { s.handler f with controlledSession := none, pc := pc }) := by
  refine .answer pc none (.inr ⟨rfl, fun id' hid' hcon => ?_⟩) hq
  obtain rfl : id = id' := by simpa [hc] using hid'
  obtain ⟨session, hs, hcon⟩ := controls_iff.mp hcon
  exact hlost session hs hcon

theorem dispatchStart_received (resolution : Option AgentResolution) (around : Surroundings) :
    s.Received f (s.dispatchStart f resolution around) := by
  unfold dispatchStart
  simp only [setHandler_setPc]
  -- The handler may first drop a session that has left the map.
  generalize hc : (if (s.handler f).lifecycleEnabled = true ∧
    ((s.handler f).controlledSession.any fun id => (s.sessions id).isNone) = true then none
    else (s.handler f).controlledSession) = c
  have moves (pc : Pc) (hq : Quiet c pc) : s.Received f
      (s.setHandler f { s.handler f with controlledSession := c, pc := pc }) := by
    refine .answer pc c ?_ hq
    split_ifs at hc with hlost
    · refine .inr ⟨hc.symm, fun id hid hcon => ?_⟩
      obtain ⟨session, hs, -⟩ := controls_iff.mp hcon
      simpa [hid, hs] using hlost.2
    · exact .inl hc.symm
  have rejects (code : RejectCode) (detail : String) : Quiet c (reject code detail) :=
    quiet_reject ..
  split
  · exact moves _ (rejects _ _)
  rename_i hfree
  have draws (resolved : Option Text) : Quiet c (.startDraw resolved) := by
    simpa [Quiet] using hfree
  split
  · exact moves _ (rejects _ _)
  split
  · split
    · exact moves _ (draws _)
    · exact moves _ (rejects _ _)
  · exact moves _ (draws _)

theorem dispatchStartAck_received (id : Text) : s.Received f (s.dispatchStartAck f id) := by
  unfold dispatchStartAck
  dsimp only
  split
  · exact s.received_reject f _ _
  split
  · exact s.received_reject f _ _
  rename_i session hs
  split_ifs with hexit hphase howner
  · exact s.received_reject f _ _
  · exact s.received_reject f _ _
  · exact s.received_reject f _ _
  · simp only [ne_eq, not_not, not_or, Option.any_eq_true] at hphase howner
    obtain ⟨hc, c, hcon, hown⟩ := howner
    refine .ack id session hs hphase hc (Session.controlledBy_iff.mpr ⟨c, hcon, ?_⟩)
    simp at hown
    exact hown.1

theorem dispatchAttach_received (id : Text) : s.Received f (s.dispatchAttach f id) := by
  unfold dispatchAttach
  dsimp only
  split_ifs with hc
  · exact s.received_reject f _ _
  split
  · exact s.received_reject f _ _
  rename_i session hs
  split_ifs with hexit hheld
  · exact s.received_reject f _ _
  · exact s.received_reject f _ _
  · exact .attach id session hs (by simpa using hc) (by simpa using hheld)

theorem dispatchDetach_received : s.Received f (s.dispatchDetach f) := by
  unfold dispatchDetach
  dsimp only
  split
  · exact s.received_reject f _ _
  rename_i id hc
  split
  · rename_i hs
    rw [setHandler_setPc]
    exact received_lost hc (fun session h => by simp [setHandler, h] at hs) quiet_detached
  rename_i session hs
  split_ifs with hun hcon
  · rw [setHandler_setSession_setPc]
    exact .abandon id session hs hc hun
  · rw [setHandler_setSession_setPc]
    exact .release id session hs hc hcon hun
  · rw [setHandler_setPc]
    exact received_lost hc (fun session' h => by simp_all [setHandler]) quiet_detached

theorem dispatchStop_received (id : Text)
    (halive : ∀ session, s.sessions id = some session → session.agentExited = false) :
    s.Received f (s.dispatchStop f id) := by
  unfold dispatchStop
  dsimp only
  split_ifs with hc
  · exact s.received_reject f _ _
  have hc' : (s.handler f).controlledSession = some id := by simpa using hc
  split
  · rename_i hs
    exact received_lost hc' (fun session h => by simp [hs] at h) (quiet_reject ..)
  rename_i session hs
  split_ifs with hexit hcon
  · exact absurd (halive session hs) (by simp [hexit])
  · exact received_lost hc' (fun session' h => by simp_all) (quiet_reject ..)
  · obtain ⟨c, hcon, hf⟩ := Session.controlledBy_iff.mp (by simpa using hcon)
    rw [hcon]
    exact .stop id session c hs hc' hcon hf

theorem dispatchTerminal_received (name : String) (around : Surroundings) :
    s.Received f (s.dispatchTerminal f name around) := by
  unfold dispatchTerminal
  split
  · exact s.received_reject f _ _
  rename_i id _
  cases hm : s.controllerMaster f id with
  | ok _ => dsimp only; split <;> exact received_setPc trivial
  | error refusal =>
    have hr : ∃ code detail, refusal = reject code detail := by
      unfold controllerMaster at hm
      split at hm
      · exact ⟨_, _, (Except.error.inj hm).symm⟩
      · split_ifs at hm <;> exact ⟨_, _, (Except.error.inj hm).symm⟩
    obtain ⟨code, detail, rfl⟩ := hr
    exact s.received_reject f code detail

theorem dispatchMessage_received (around : Surroundings) (m : Message)
    (halive : ∀ id session, s.sessions id = some session → session.agentExited = false) :
    s.Received f (s.dispatchMessage f around m) := by
  cases m with
  | ptyStart executable resolution argv cols rows => exact s.dispatchStart_received f resolution around
  | ptyStartAck id => exact s.dispatchStartAck_received f id
  | ptyAttach id => exact s.dispatchAttach_received f id
  | ptyDetach => exact s.dispatchDetach_received f
  | ptyStop id => exact s.dispatchStop_received f id (halive id)
  | ptyInput _ => exact s.dispatchTerminal_received f _ around
  | ptyResize _ _ => exact s.dispatchTerminal_received f _ around
  | _ => exact s.received_reject f _ _

theorem eq_rejectWith_of_frameRejects {m : Message} (h : m ∈ frameRejects) :
    ∃ code detail, m = rejectWith code detail := by
  simp only [frameRejects, List.mem_cons, List.not_mem_nil, or_false] at h
  rcases h with rfl | rfl | rfl <;> exact ⟨_, _, rfl⟩

theorem receive_received (around : Surroundings) (input : Input) (hlegal : input.Legal)
    (halive : ∀ id session, s.sessions id = some session → session.agentExited = false) :
    s.Received f (s.receive f around input) := by
  cases input with
  | eof => exact received_setPc trivial
  | badFrame reject =>
    obtain ⟨code, detail, rfl⟩ := eq_rejectWith_of_frameRejects hlegal
    exact received_setPc (quiet_reject ..)
  | frame value =>
    simp only [receive]
    cases hd : decodeValue value with
    | ok m => exact s.dispatchMessage_received f around m halive
    | error reject =>
      obtain ⟨code, detail, rfl⟩ := decodeValue_error hd
      exact received_setPc (quiet_reject ..)

end State

namespace Leases
variable {s s' : State} {f : ℕ}

theorem leased_of_idle (hpc : (s.handler f).pc = .idle) :
    (s.handler f).leased = (s.handler f).controlledSession := by
  simp [Handler.leased, hpc]

/-- An answer leaves the handler's lease as it was, or forgets one that is lost. -/
theorem answer_kept (hI : Leases s) (hpc : (s.handler f).pc = .idle) {pc : Pc} {controlled : Option Text}
    (hc : controlled = (s.handler f).controlledSession ∨ controlled = none ∧
      ∀ id, (s.handler f).controlledSession = some id → ¬ s.Controls f id)
    (hq : State.Quiet controlled pc) :
    Leases (s.setHandler f { s.handler f with pc := pc, controlledSession := controlled }) := by
  have hleased : (s.handler f).leased = (s.handler f).controlledSession := leased_of_idle hpc
  have hclosing : (s.handler f).pc ≠ .closing ∧ (s.handler f).pc ≠ .absent := by simp [hpc]
  refine hI.local_step (f := f)
    { next := rfl, handler := rfl, sessions := rfl, watcher := rfl, drawn := rfl, completion := rfl
      pc := hclosing
      leased := ?_, controlled := ?_, unpublished := ?_, at_pc := ?_ }
  · by_cases hcl : pc = .closing
    · exact .inr ⟨by simp [Handler.leased, hcl], .inl hcl⟩
    have e : Handler.leased { s.handler f with pc := pc, controlledSession := controlled } =
        controlled := by
      cases pc <;> simp_all [State.Quiet, Handler.leased]
    rw [e, hleased]
    rcases hc with hc | ⟨hc, hlost⟩
    · exact .inl hc
    · refine .inr ⟨hc, .inr fun id hcon => hlost id ?_ hcon⟩
      rw [← hleased]
      exact hI.leased_of_controls hclosing.1 hcon
  · rcases hc with e | ⟨e, -⟩
    · exact .inr (.inl e)
    · exact .inl e
  · intro id hid
    cases pc <;> simp_all [State.Quiet, Pc.unpublished]
  · cases pc <;> simp_all [State.Quiet, State.AtPc]

theorem ack_kept (hI : Leases s) (hpc : (s.handler f).pc = .idle) {id : Text} {session : Session}
    (hs : s.sessions id = some session) (hc : (s.handler f).controlledSession = some id)
    (hcon : session.controlledBy f) :
    Leases ((s.setSession id (some { session with startConfirmed := true })).setPc f .idle) := by
  have hleased : (s.handler f).leased = (s.handler f).controlledSession := leased_of_idle hpc
  have hclosing : (s.handler f).pc ≠ .closing ∧ (s.handler f).pc ≠ .absent := by simp [hpc]
  refine hI.session_step (f := f)
    { next := rfl, handler := rfl, sessions := rfl, watcher := rfl, drawn := rfl, completion := rfl
      mine := hI.mine_of_controls (State.controls_iff.mpr ⟨session, hs, hcon⟩)
      pc := hclosing
      before := .inl (hleased.trans hc)
      leased := .inl hc
      controlled := .inl hc
      unpublished := rfl
      lease := ?_, session := ?_
      at_pc := trivial }
  · rintro _ ⟨⟩
    exact .inl ⟨hc, Session.controlledBy_iff.mp hcon⟩
  · rintro _ ⟨⟩
    exact ⟨hI.watcher id session hs, hI.alive id session hs, fun _ h => by cases h⟩

/-- An attach leases a session that nobody controls, and so one that is confirmed. -/
theorem attach_kept (hI : Leases s) (hpc : (s.handler f).pc = .idle) {id : Text} {session : Session}
    (hs : s.sessions id = some session) (hc : (s.handler f).controlledSession = none)
    (hcon : session.controller = none) :
    Leases ({ s.setSession id (some { session with
        controller := some ((s.handler f).lease f s.leases) }) with
        leases := s.leases + 1 }.setHandler f { s.handler f with
          controlledSession := some id, pc := .attachSend id session.childPid s.leases }) := by
  have hleased : (s.handler f).leased = (s.handler f).controlledSession := leased_of_idle hpc
  have hclosing : (s.handler f).pc ≠ .closing ∧ (s.handler f).pc ≠ .absent := by simp [hpc]
  obtain ⟨hd, hu⟩ := hI.known_of_session hs
  refine hI.session_step (f := f)
    { next := rfl, handler := rfl, sessions := rfl, watcher := rfl, drawn := rfl, completion := rfl
      mine := ⟨⟨hd, fun g _ => hu g⟩, fun g _ hl => ?_⟩
      pc := hclosing
      before := .inr (hleased.trans hc)
      leased := .inl rfl
      controlled := .inl rfl
      unpublished := rfl
      lease := ?_, session := ?_
      at_pc := ⟨rfl, fun session' hs' => ?_⟩ }
  · obtain ⟨c, hc, -⟩ := hI.must g id session hl hs
    simp [hcon] at hc
  · rintro _ ⟨⟩
    exact .inl ⟨rfl, _, rfl, rfl⟩
  · rintro _ ⟨⟩
    refine ⟨hI.watcher id session hs, hI.alive id session hs, fun hw hn => ?_⟩
    obtain ⟨c, hc, -⟩ := hI.unconfirmed id session hs hw hn
    simp [hcon] at hc
  · obtain rfl : _ = session' := by simpa [State.setHandler, State.setSession] using hs'
    rfl

theorem abandon_kept (hI : Leases s) (hpc : (s.handler f).pc = .idle) {id : Text} {session : Session}
    (hs : s.sessions id = some session) (hc : (s.handler f).controlledSession = some id)
    (hun : session.unconfirmedBy f) :
    Leases ((s.setSession id none).setHandler f
      { s.handler f with controlledSession := none, pc := .signalling id .detach }) := by
  have hleased : (s.handler f).leased = (s.handler f).controlledSession := leased_of_idle hpc
  have hclosing : (s.handler f).pc ≠ .closing ∧ (s.handler f).pc ≠ .absent := by simp [hpc]
  obtain ⟨-, c, hcon, hf, -⟩ := Session.unconfirmedBy_iff.mp hun
  exact hI.session_step (f := f)
    { next := rfl, handler := rfl, sessions := rfl, watcher := rfl, drawn := rfl, completion := rfl
      mine := hI.mine_of_controls ⟨session, c, hs, hcon, hf⟩
      pc := hclosing
      before := .inl (hleased.trans hc)
      leased := .inr rfl
      controlled := .inr rfl
      unpublished := rfl
      lease := by simp
      session := by simp
      at_pc := rfl }

/-- A detach gives back the lease of a confirmed session. -/
theorem release_kept (hI : Leases s) (hpc : (s.handler f).pc = .idle) {id : Text} {session : Session}
    (hs : s.sessions id = some session) (hc : (s.handler f).controlledSession = some id)
    (hcon : session.controlledBy f) (hun : ¬ session.unconfirmedBy f) :
    Leases ((s.setSession id (some session.release)).setHandler f
      { s.handler f with controlledSession := none, pc := .replying .ptyDetached .idle }) := by
  have hleased : (s.handler f).leased = (s.handler f).controlledSession := leased_of_idle hpc
  have hclosing : (s.handler f).pc ≠ .closing ∧ (s.handler f).pc ≠ .absent := by simp [hpc]
  refine hI.session_step (f := f)
    { next := rfl, handler := rfl, sessions := rfl, watcher := rfl, drawn := rfl, completion := rfl
      mine := hI.mine_of_controls (State.controls_iff.mpr ⟨session, hs, hcon⟩)
      pc := hclosing
      before := .inl (hleased.trans hc)
      leased := .inr rfl
      controlled := .inr rfl
      unpublished := rfl
      lease := ?_, session := ?_
      at_pc := ⟨trivial, fun _ => rfl⟩ }
  · rintro _ ⟨⟩
    exact .inr ⟨rfl, rfl⟩
  · rintro _ ⟨⟩
    refine ⟨hI.watcher id session hs, hI.alive id session hs, fun hw hn => absurd ?_ hun⟩
    -- A written and unconfirmed session is the starter's, who is `f`.
    obtain ⟨c, hc, -, hl⟩ := hI.unconfirmed id session hs hw hn
    obtain ⟨c', hc', hf⟩ := Session.controlledBy_iff.mp hcon
    obtain rfl : c = c' := by simpa [hc] using hc'
    exact Session.unconfirmedBy_iff.mpr ⟨⟨hw, hn⟩, c, hc, hf, hl⟩

theorem stop_kept (hI : Leases s) (hpc : (s.handler f).pc = .idle) {id : Text} {session : Session}
    {c : Controller} (hs : s.sessions id = some session)
    (hc : (s.handler f).controlledSession = some id) (hcon : session.controller = some c)
    (hf : c.frontendId = f) :
    Leases ((s.setSession id (some { session with
      controller := some { c with active := false }, stopInFlight := true })).setPc f
      (.signalling id .stop)) := by
  have hleased : (s.handler f).leased = (s.handler f).controlledSession := leased_of_idle hpc
  have hclosing : (s.handler f).pc ≠ .closing ∧ (s.handler f).pc ≠ .absent := by simp [hpc]
  refine hI.session_step (f := f)
    { next := rfl, handler := rfl, sessions := rfl, watcher := rfl, drawn := rfl, completion := rfl
      mine := hI.mine_of_controls ⟨session, c, hs, hcon, hf⟩
      pc := hclosing
      before := .inl (hleased.trans hc)
      leased := .inl hc
      controlled := .inl hc
      unpublished := rfl
      lease := ?_, session := ?_
      at_pc := hc }
  · rintro _ ⟨⟩
    exact .inl ⟨hc, _, rfl, hf⟩
  · rintro _ ⟨⟩
    refine ⟨hI.watcher id session hs, hI.alive id session hs, fun hw hn => ?_⟩
    obtain ⟨c', hc', hst, hl⟩ := hI.unconfirmed id session hs hw hn
    obtain rfl : c = c' := by simpa [hcon] using hc'
    exact ⟨_, rfl, hst, hl⟩

theorem received (hI : Leases s) (hpc : (s.handler f).pc = .idle) (h : s.Received f s') :
    Leases s' := by
  cases h with
  | answer pc controlled hc hq => exact hI.answer_kept hpc hc hq
  | ack id session hs _ hc hcon => exact hI.ack_kept hpc hs hc hcon
  | attach id session hs hc hcon => exact hI.attach_kept hpc hs hc hcon
  | abandon id session hs hc hun => exact hI.abandon_kept hpc hs hc hun
  | release id session hs hc hcon hun => exact hI.release_kept hpc hs hc hcon hun
  | stop id session c hs hc hcon hf => exact hI.stop_kept hpc hs hc hcon hf

end Leases
end Winsmux.RemoteHelper
