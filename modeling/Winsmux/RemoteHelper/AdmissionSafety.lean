import Winsmux.RemoteHelper.Admission

/-!
# One broker at the name

The lock orders everything that removes the name or adds to a backlog, so a
listening broker keeps its name, and a broker that shuts down leaves nobody behind.
-/
namespace Winsmux.RemoteHelper.Admission
open Transition

/-- The frontend that takes the step. -/
def Label.frontend : Label → Option ℕ
  | .lockExclusive f _ | .connect f _ | .removeStale f _ | .spawnBroker f _ | .readAck f _ _ _
  | .ackFailed f _ _ _ | .unlockOriginator f _ _ | .receiveReply f _ _ _
  | .handshakeFails f _ _ _ _ | .dropStream f _ _ _ _ | .retry f _ _ _ | .finish f _ _
  | .leave f => some f
  | _ => none

/-- The broker process that takes the step. -/
def Label.daemon : Label → Option ℕ
  | .closeLockCopy b | .bind b | .pipeFails b | .newState b | .writeAck b | .poll b _
  | .accept b _ _ | .acceptWouldBlock b | .checkIdle b | .tryLock b | .armWaiter b
  | .waiterLock b | .waiterUnlock b | .drained b _ | .recheckIdle b | .unlockBroker b
  | .removeName b | .shutdownExit b | .die b | .reply b _ | .startSession b _ | .endSession b
  | .hangUp b _ _ => some b
  | _ => none

/-- The file descriptions of the lock that the step may unlock or close. -/
def Label.releases : Label → List Holder
  | .unlockOriginator f _ _ | .retry f _ _ _ | .finish f _ _ | .leave f => [.frontend f]
  | .closeLockCopy b => [.child b]
  | .waiterUnlock b => [.waiter b]
  | .unlockBroker b => [.broker b]
  | .bind b | .shutdownExit b | .die b => [.child b, .broker b, .waiter b]
  | _ => []

namespace State
variable {s : State} {l : Label}

theorem front_frame {f : ℕ} (hf : l.frontend ≠ some f) : (s.next l).front f = s.front f := by
  cases l <;> simp only [Label.frontend, ne_eq, Option.some.injEq] at hf
  case connect g r =>
    simp only [next, connect]
    split
    · simp [setFront, Ne.symm hf]
    · split <;> simp [setFront, setBroker, Ne.symm hf]
  case retry g r originator retryable =>
    cases originator <;> simp [next, setFront, unlock, Ne.symm hf]
  case finish g c originator =>
    cases originator <;> simp [next, setFront, unlock, Ne.symm hf]
  case bind b =>
    simp only [next, bind]
    split <;> simp [setMain, setBroker, endBroker]
  case tryLock b =>
    simp only [next, tryLock]
    split <;> simp [setMain, setBroker]
  case accept b c valid =>
    cases valid <;> simp [next, accept, setBroker]
  all_goals
    simp [next, spawnBroker, leave, closeConnection, armWaiter, hangUp, endBroker, setMain,
      setBroker, unlock, setFront, Ne.symm hf]

theorem lock_frame {h : Holder} (hen : s.enabled l) (hh : s.lock = some h) (hl : h ∉ l.releases) :
    (s.next l).lock = some h := by
  cases l <;> simp only [Label.releases, List.mem_cons, List.not_mem_nil, or_false, not_or] at hl
  case lockExclusive f r => simp [enabled, hh] at hen
  case waiterLock b => simp [enabled, hh] at hen
  case tryLock b => simp [next, tryLock, hh, setMain, setBroker]
  case connect f r =>
    simp only [next, connect]
    split
    · exact hh
    · split <;> exact hh
  case retry f r originator retryable =>
    cases originator <;> simp [next, setFront, unlock, hh, hl]
  case finish f c originator =>
    cases originator <;> simp [next, setFront, unlock, hh, hl]
  case bind b =>
    simp only [next, bind]
    split
    · exact hh
    · simp [endBroker, setBroker, hh, hl]
  case accept b c valid => cases valid <;> exact hh
  all_goals
    simp [next, spawnBroker, leave, closeConnection, armWaiter, hangUp, endBroker, setMain,
      setBroker, unlock, setFront, hh, hl]

/-- What can happen to the name. -/
theorem sock_step (hen : s.enabled l) : (s.next l).sock = s.sock ∨
    (∃ b, l = .bind b ∧ s.sock = none ∧ (s.next l).sock = some b) ∨
    (∃ f r, l = .removeStale f r ∧ (s.next l).sock = none) ∨
    ∃ b, (s.broker b).main.named ∧ (l = .pipeFails b ∨ l = .removeName b) := by
  cases l
  case bind b =>
    by_cases hnone : s.sock = none
    · exact .inr (.inl ⟨b, rfl, hnone, by simp [next, bind, hnone]⟩)
    · exact .inl (by simp [next, bind, hnone, endBroker, setBroker])
  case removeStale f r => exact .inr (.inr (.inl ⟨f, r, rfl, rfl⟩))
  case pipeFails b =>
    have hmain : (s.broker b).main = .bound := hen
    exact .inr (.inr (.inr ⟨b, by simp [hmain, Main.named, Main.listening], .inl rfl⟩))
  case removeName b =>
    have hmain : (s.broker b).main = .removing := hen
    exact .inr (.inr (.inr ⟨b, by simp [hmain, Main.named, Main.listening], .inr rfl⟩))
  case connect f r =>
    left
    simp only [next, connect]
    split
    · rfl
    · split <;> rfl
  case retry f r originator retryable => exact .inl (by cases originator <;> rfl)
  case finish f c originator => exact .inl (by cases originator <;> rfl)
  case tryLock b =>
    left
    simp only [next, tryLock]
    split <;> rfl
  case accept b c valid => exact .inl (by cases valid <;> rfl)
  all_goals exact .inl rfl

/-- Another process's step leaves a broker as it is, up to a connection in its backlog;
a fork gives a new one. -/
theorem broker_frame {b : ℕ} (hen : s.enabled l) (hb : l.daemon ≠ some b) :
    (s.next l).broker b = s.broker b ∨
    (∃ f r, l = .connect f r ∧ s.front f = .locked r ∧ s.sock = some b ∧
      (s.broker b).main.listening ∧ (s.next l).broker b =
        { s.broker b with backlog := (s.broker b).backlog ++ [s.nextConnection] }) ∨
    ∃ f r, l = .spawnBroker f r ∧ b = s.nextBroker ∧
      (s.next l).broker b = ⟨.forked, s.nextConnection, false, [], [], 0, .absent⟩ := by
  cases l <;> simp only [Label.daemon, ne_eq, Option.some.injEq] at hb
  case connect f r =>
    by_cases hsock : s.sock = some b ∧ (s.broker b).main.listening = true
    · right
      left
      exact ⟨f, r, rfl, hen, hsock.1, hsock.2, by simp [next, connect, hsock, setFront, setBroker]⟩
    · left
      simp only [next, connect]
      split
      · rfl
      rename_i b' hb'
      split
      · rename_i hlisten
        have hne : b ≠ b' := by
          rintro rfl
          exact hsock ⟨hb', hlisten⟩
        simp [setFront, setBroker, hne]
      · rfl
  case spawnBroker f r =>
    by_cases hnew : b = s.nextBroker
    · exact .inr (.inr ⟨f, r, rfl, hnew, by simp [next, spawnBroker, hnew, setFront, setBroker]⟩)
    · exact .inl (by simp [next, spawnBroker, hnew, setFront, setBroker])
  case retry f r originator retryable => exact .inl (by cases originator <;> rfl)
  case finish f c originator => exact .inl (by cases originator <;> rfl)
  case bind b' =>
    left
    simp only [next, bind]
    split <;> simp [setMain, setBroker, endBroker, Ne.symm hb]
  case tryLock b' =>
    left
    simp only [next, tryLock]
    split <;> simp [setMain, setBroker, Ne.symm hb]
  case accept b' c valid =>
    left
    cases valid <;> simp [next, accept, setBroker, Ne.symm hb]
  all_goals first
    | exact .inl rfl
    | exact .inl (by
        simp [next, armWaiter, hangUp, endBroker, setMain, setBroker, unlock, Ne.symm hb])

end State
/-- Nothing is left where the shutdown attempt has already looked, and nothing is
served before the broker's state exists. -/
def Broker.Emptied (b : Broker) : Prop :=
  match b.main with
  | .forked | .starting | .bound | .unlinked => b.served = []
  | .drained => b.backlog = []
  | .removing | .exiting => b.backlog = [] ∧ b.served = [] ∧ b.sessions = 0
  | _ => True

/-- The connection waits at the broker or is served, or is the one the broker begins with. -/
def Broker.Keeps (b : Broker) (c : ℕ) : Prop :=
  c ∈ b.backlog ∨ c ∈ b.served ∨ b.main.early = true ∧ b.first = c

/-- The broker has the connection, will have it, or has closed it. -/
def State.Attended (s : State) (c : ℕ) : Prop :=
  s.cut c = true ∨ (s.broker (s.target c)).Keeps c

structure Admitted (s : State) : Prop where
  named : ∀ b, (s.broker b).main.named = true → s.sock = some b
  refused : ∀ f r, s.front f = .refused r →
    ∃ b, s.sock = some b ∧ (s.broker b).main.listening = false
  front : ∀ f, (s.front f).holds = true → s.lock = some (.frontend f)
  main : ∀ b, (s.broker b).main.holds = true → s.lock = some (.broker b)
  attended : ∀ f c, (s.front f).handshaking = some c → c < s.nextConnection ∧ s.Attended c
  emptied : ∀ b, (s.broker b).Emptied
  unborn : ∀ b, s.nextBroker ≤ b → s.broker b = ⟨.unborn, 0, false, [], [], 0, .absent⟩

namespace Admitted
variable {s : State} {l : Label}

/-- A broker's own step gives it a name only by binding it, and it listens only then. -/
theorem named_of_own {b : ℕ} (hen : s.enabled l) (hb : l.daemon = some b) :
    (((s.next l).broker b).main.listening = true →
      (s.broker b).main.listening = true ∨ l = .bind b ∧ s.sock = none) ∧
    (((s.next l).broker b).main.named = true →
      (s.broker b).main.named = true ∧ l ≠ .pipeFails b ∧ l ≠ .removeName b ∨
        l = .bind b ∧ s.sock = none) := by
  cases l <;> simp only [Label.daemon, Option.some.injEq, reduceCtorEq] at hb <;> subst hb
  case bind b =>
    by_cases hnone : s.sock = none
    · exact ⟨fun _ => .inr ⟨rfl, hnone⟩, fun _ => .inr ⟨rfl, hnone⟩⟩
    · simp [State.next, State.bind, hnone, State.endBroker, State.setBroker, Main.named,
        Main.listening]
  case accept b c valid =>
    have hmain := hen.1
    cases hm : (s.broker b).main <;> simp [hm, Main.accepts] at hmain <;>
      cases valid <;> simp [hm, State.next, State.accept, State.setBroker, Main.named, Main.listening]
  case tryLock b =>
    have hmain : (s.broker b).main = .idle := hen
    simp [hmain, Main.named, Main.listening]
  case shutdownExit b =>
    simp [State.next, State.endBroker, State.setBroker, Main.named, Main.listening]
  case die b =>
    simp [State.next, State.endBroker, State.setBroker, Main.named, Main.listening]
  case reply b c => exact ⟨.inl, fun h => .inl ⟨h, by simp, by simp⟩⟩
  case startSession b c | endSession b | hangUp b c removed | waiterLock b | waiterUnlock b =>
    simp only [State.next, State.hangUp, State.setBroker, State.unlock, Function.update_self]
    exact ⟨.inl, fun h => .inl ⟨h, by simp, by simp⟩⟩
  all_goals
    simp only [State.enabled] at hen
    simp [State.next, State.armWaiter, State.setMain, State.setBroker, State.unlock, Main.named,
      Main.listening, hen]

theorem named_step (h : Admitted s) (hen : s.enabled l) (b : ℕ)
    (hb : ((s.next l).broker b).main.named = true) : (s.next l).sock = some b := by
  -- Either the broker has just bound the name, or it had it and nobody else takes it.
  have before : l = .bind b ∧ s.sock = none ∨
      (s.broker b).main.named = true ∧ l ≠ .pipeFails b ∧ l ≠ .removeName b := by
    by_cases hd : l.daemon = some b
    · exact ((named_of_own hen hd).2 hb).symm
    · right
      refine ⟨?_, ?_, ?_⟩
      · rcases State.broker_frame hen hd with e | ⟨f, r, -, -, -, -, e⟩ | ⟨f, r, -, -, e⟩
        · rwa [e] at hb
        · rwa [e] at hb
        · simp [e, Main.named, Main.listening] at hb
      · rintro rfl
        exact hd rfl
      · rintro rfl
        exact hd rfl
  rcases before with ⟨rfl, hnone⟩ | ⟨hnamed, hpipe, hremove⟩
  · simp [State.next, State.bind, hnone]
  have hsock := h.named b hnamed
  have hlisten : (s.broker b).main.listening = true := by
    simp only [Main.named, Bool.and_eq_true] at hnamed
    exact hnamed.1.1
  rcases State.sock_step hen with e | ⟨b', -, hnone, -⟩ | ⟨f, r, rfl, -⟩ | ⟨b', hb', hl⟩
  · rw [e, hsock]
  · simp [hsock] at hnone
  · obtain ⟨b', hb', hdead⟩ := h.refused f r hen
    obtain rfl : b = b' := by simpa [hsock] using hb'
    simp [hlisten] at hdead
  · obtain rfl : b = b' := by simpa [hsock] using h.named b' hb'
    rcases hl with rfl | rfl
    · exact absurd rfl hpipe
    · exact absurd rfl hremove

theorem front_step (h : Admitted s) (hen : s.enabled l) (f : ℕ)
    (hf : ((s.next l).front f).holds = true) : (s.next l).lock = some (.frontend f) := by
  by_cases hl : l.frontend = some f
  · cases l <;> simp only [Label.frontend, Option.some.injEq, reduceCtorEq] at hl <;> subst hl
    case lockExclusive f r => rfl
    case leave f => simp [State.next, State.leave, State.setFront, Front.holds] at hf
    case unlockOriginator f r c => simp [State.next, State.setFront, Front.holds] at hf
    case finish f c originator => simp [State.next, State.setFront, Front.holds] at hf
    case retry f r originator retryable =>
      simp only [State.next, State.setFront, Function.update_self, State.nextRound] at hf
      split at hf <;> simp [Front.holds] at hf
    all_goals
      simp only [State.enabled] at hen
      refine State.lock_frame (by simpa [State.enabled] using hen) (h.front _ ?_)
        (by simp [Label.releases])
      revert hf
      simp [State.next, State.connect, State.spawnBroker, State.setFront, hen, Front.holds]
  · have hheld := h.front f (by rwa [State.front_frame hl] at hf)
    refine State.lock_frame hen hheld fun hmem => hl ?_
    cases l <;> simp [Label.releases] at hmem <;> simp [Label.frontend, hmem]

theorem main_step (h : Admitted s) (hen : s.enabled l) (b : ℕ)
    (hb : ((s.next l).broker b).main.holds = true) : (s.next l).lock = some (.broker b) := by
  by_cases hl : l.daemon = some b
  · cases l <;> simp only [Label.daemon, Option.some.injEq, reduceCtorEq] at hl <;> subst hl
    case tryLock b =>
      by_cases hfree : s.lock = none
      · simp [State.next, State.tryLock, hfree]
      · simp [State.next, State.tryLock, hfree, State.setMain, State.setBroker, Main.holds] at hb
    case bind b =>
      by_cases hnone : s.sock = none <;>
        simp [State.next, State.bind, hnone, State.endBroker, State.setMain, State.setBroker,
          Main.holds] at hb
    case checkIdle b =>
      simp only [State.next, State.setMain, State.setBroker, Function.update_self] at hb
      split at hb <;> simp [Main.holds] at hb
    case poll b pollin =>
      cases pollin <;> simp [State.next, State.setMain, State.setBroker, Main.holds] at hb
    case closeLockCopy b | pipeFails b | newState b | writeAck b | acceptWouldBlock b | armWaiter b
        | unlockBroker b | shutdownExit b | die b =>
      simp [State.next, State.armWaiter, State.endBroker, State.setMain, State.setBroker,
        State.unlock, Main.holds] at hb
    all_goals
      refine State.lock_frame hen (h.main _ ?_) (by simp [Label.releases])
      simp only [State.enabled] at hen
    case accept b c valid =>
      have hmain := hen.1
      cases hm : (s.broker b).main <;> simp [hm, Main.accepts] at hmain <;> cases valid <;>
        simp [hm, State.next, State.accept, State.setBroker, Main.holds] at hb ⊢
    case drained b accepted => simp [hen, Main.holds]
    case recheckIdle b => simp [hen, Main.holds]
    case removeName b => simp [hen, Main.holds]
    all_goals
      simpa [State.next, State.hangUp, State.setBroker, State.unlock] using hb
  · have hheld : s.lock = some (.broker b) := by
      rcases State.broker_frame hen hl with e | ⟨f, r, -, -, -, -, e⟩ | ⟨f, r, -, -, e⟩
      · exact h.main b (by rwa [e] at hb)
      · exact h.main b (by rwa [e] at hb)
      · simp [e, Main.holds] at hb
    refine State.lock_frame hen hheld fun hmem => hl ?_
    cases l <;> simp [Label.releases] at hmem <;> simp [Label.daemon, hmem]

theorem refused_step (h : Admitted s) (hen : s.enabled l) (f : ℕ) (r : Round)
    (hf : (s.next l).front f = .refused r) :
    ∃ b, (s.next l).sock = some b ∧ ((s.next l).broker b).main.listening = false := by
  by_cases hl : l.frontend = some f
  · -- Only a connect brings a frontend here, and it changes nothing else.
    cases l <;> simp only [Label.frontend, Option.some.injEq, reduceCtorEq] at hl <;> subst hl
    case connect f r' =>
      revert hf
      simp only [State.next, State.connect]
      split
      · simp [State.setFront]
      · rename_i b hb
        split
        · simp [State.setFront]
        · rename_i hdead
          intro _
          exact ⟨b, hb, by simpa [State.setFront] using hdead⟩
    case retry f r' originator retryable =>
      simp only [State.next, State.setFront, Function.update_self, State.nextRound] at hf
      split at hf <;> cases hf
    all_goals simp [State.next, State.spawnBroker, State.leave, State.setFront] at hf
  · rw [State.front_frame hl] at hf
    obtain ⟨b, hb, hdead⟩ := h.refused f r hf
    have hstays : ((s.next l).broker b).main.listening = false := by
      by_contra hlisten
      have hlisten : ((s.next l).broker b).main.listening = true := by simpa using hlisten
      by_cases hd : l.daemon = some b
      · rcases (named_of_own hen hd).1 hlisten with hold | ⟨-, hnone⟩
        · simp [hdead] at hold
        · simp [hb] at hnone
      · rcases State.broker_frame hen hd with e | ⟨g, r', -, -, -, -, e⟩ | ⟨g, r', -, -, e⟩
        · simp [e, hdead] at hlisten
        · simp [e, hdead] at hlisten
        · simp [e, Main.listening] at hlisten
    refine ⟨b, ?_, hstays⟩
    rcases State.sock_step hen with e | ⟨b', -, hnone, -⟩ | ⟨g, r', rfl, -⟩ | ⟨b', hb', -⟩
    · rw [e, hb]
    · simp [hb] at hnone
    · -- Two frontends would hold the lock.
      have hheld := h.front f (by simp [hf, Front.holds])
      have hg : s.front g = .refused r' := hen
      have hheld' := h.front g (by simp [hg, Front.holds])
      obtain rfl : f = g := by simpa [hheld] using hheld'
      exact absurd rfl hl
    · obtain rfl : b = b' := by simpa [hb] using h.named b' hb'
      simp [Main.named, hdead] at hb'

theorem emptied_step (h : Admitted s) (hen : s.enabled l) (b : ℕ) :
    ((s.next l).broker b).Emptied := by
  have hold := h.emptied b
  by_cases hl : l.daemon = some b
  · cases l <;> simp only [Label.daemon, Option.some.injEq, reduceCtorEq] at hl <;> subst hl
    case bind b =>
      by_cases hnone : s.sock = none
      · have hmain : (s.broker b).main = .starting := hen
        simpa [State.next, State.bind, hnone, State.setMain, State.setBroker, Broker.Emptied, hmain]
          using hold
      · simp [State.next, State.bind, hnone, State.endBroker, State.setBroker, Broker.Emptied]
    case accept b c valid =>
      have hmain := hen.1
      cases hm : (s.broker b).main <;> simp [hm, Main.accepts] at hmain <;> cases valid <;>
        simp [hm, State.next, State.accept, State.setBroker, Broker.Emptied]
    case tryLock b =>
      by_cases hfree : s.lock = none <;>
        simp [State.next, State.tryLock, hfree, State.setMain, State.setBroker, Broker.Emptied]
    case checkIdle b =>
      simp only [State.next, State.setMain, State.setBroker, Function.update_self]
      split <;> trivial
    case poll b pollin => cases pollin <;> simp [State.next, State.setMain, State.setBroker, Broker.Emptied]
    case drained b accepted =>
      simp only [State.next, State.setMain, State.setBroker, Function.update_self]
      split
      · trivial
      · exact hen.2
    case recheckIdle b =>
      have hmain : (s.broker b).main = .drained := hen
      simp only [Broker.Emptied, hmain] at hold
      simp only [State.next, State.setMain, State.setBroker, Function.update_self]
      split
      · rename_i hidle
        simp only [Broker.isIdle, Bool.and_eq_true, decide_eq_true_eq] at hidle
        exact ⟨hold, hidle⟩
      · trivial
    case removeName b =>
      have hmain : (s.broker b).main = .removing := hen
      simpa [State.next, State.setMain, State.setBroker, Broker.Emptied, hmain] using hold
    case closeLockCopy b | pipeFails b =>
      simp only [State.enabled] at hen
      simpa [State.next, State.setMain, State.setBroker, State.unlock, Broker.Emptied, hen] using hold
    case newState b | writeAck b | acceptWouldBlock b | armWaiter b | unlockBroker b
        | shutdownExit b | die b =>
      simp [State.next, State.armWaiter, State.endBroker, State.setMain, State.setBroker,
        State.unlock, Broker.Emptied]
    case reply b c => exact hold
    case waiterLock b | waiterUnlock b =>
      simpa [State.next, State.setBroker, State.unlock, Broker.Emptied] using hold
    -- A handler runs only while something is served.
    case startSession b c | endSession b | hangUp b c removed =>
      simp only [State.enabled] at hen
      cases hm : (s.broker b).main <;>
        simp_all [State.next, State.hangUp, State.setBroker, Broker.Emptied]
  · rcases State.broker_frame hen hl with e | ⟨f, r, -, hf, -, -, e⟩ | ⟨f, r, -, -, e⟩
    · rwa [e]
    · -- The frontend that connects holds the lock, so no shutdown is under way.
      have hheld := h.front f (by simp [hf, Front.holds])
      have hfree : (s.broker b).main.holds = false := by
        by_contra hholds
        have := h.main b (by simpa using hholds)
        simp [hheld] at this
      rw [e]
      cases hm : (s.broker b).main <;> simp_all [Broker.Emptied, Main.holds]
    · simp [e, Broker.Emptied]

/-- The broker of a connection is the same after every step. -/
theorem target_next {l : Label} {c : ℕ} (hc : c < s.nextConnection) : (s.next l).target c = s.target c := by
  cases l
  case connect f r =>
    simp only [State.next, State.connect]
    split
    · rfl
    · split
      · simp [hc.ne]
      · rfl
  case spawnBroker f r => simp [State.next, State.spawnBroker, hc.ne]
  case retry f r originator retryable => cases originator <;> rfl
  case finish f c originator => cases originator <;> rfl
  case bind b =>
    simp only [State.next, State.bind]
    split <;> rfl
  case tryLock b =>
    simp only [State.next, State.tryLock]
    split <;> rfl
  case accept b c valid => cases valid <;> rfl
  all_goals rfl

/-- A connection once closed stays closed. -/
theorem cut_next {l : Label} {c : ℕ} (hcut : s.cut c = true) : (s.next l).cut c = true := by
  cases l
  case connect f r =>
    simp only [State.next, State.connect]
    split
    · exact hcut
    · split <;> exact hcut
  case retry f r originator retryable => cases originator <;> exact hcut
  case finish f c originator => cases originator <;> exact hcut
  case bind b =>
    simp only [State.next, State.bind]
    split
    · exact hcut
    · simp [State.endBroker, hcut]
  case tryLock b =>
    simp only [State.next, State.tryLock]
    split <;> exact hcut
  case accept b c' valid =>
    cases valid
    · by_cases hcc : c = c' <;> simp [State.next, State.accept, hcc, hcut]
    · exact hcut
  case hangUp b c' removed =>
    by_cases hcc : c = c' <;> simp [State.next, State.hangUp, hcc, hcut]
  case shutdownExit b | die b => simp [State.next, State.endBroker, hcut]
  all_goals exact hcut

/-- A broker that accepts a connection serves it or closes it, and keeps the others. -/
theorem accept_keeps {b c c' : ℕ} {valid : Bool} (hen : s.enabled (.accept b c' valid))
    (hatt : (s.broker b).Keeps c) :
    (s.next (.accept b c' valid)).cut c = true ∨ ((s.next (.accept b c' valid)).broker b).Keeps c := by
  simp only [Broker.Keeps] at hatt ⊢
  have hlate : (s.broker b).main.early = false := by
    have hmain := hen.1
    cases hm : (s.broker b).main <;> simp [hm, Main.accepts] at hmain <;> rfl
  obtain ⟨rest, hrest⟩ : ∃ rest, (s.broker b).backlog = c' :: rest :=
    List.head?_eq_some_iff.mp hen.2
  simp only [hlate, hrest, List.mem_cons, Bool.false_eq_true, false_and, or_false] at hatt
  cases valid with
  | true =>
    right
    simp only [State.next, State.accept, State.setBroker, if_true, Function.update_self, hrest,
      List.tail_cons, List.mem_cons]
    tauto
  | false =>
    by_cases hcc : c = c'
    · exact .inl (by simp [State.next, State.accept, hcc])
    · right
      simp only [State.next, State.accept, State.setBroker, Function.update_self, hrest,
        List.tail_cons, Bool.false_eq_true, if_false]
      tauto

/-- A broker that moves keeps its connections or closes them. -/
theorem daemon_keeps (h : Admitted s) (hen : s.enabled l) {b c : ℕ} (hl : l.daemon = some b)
    (hb : s.target c = b) (hatt : (s.broker b).Keeps c) :
    (s.next l).cut c = true ∨ ((s.next l).broker b).Keeps c := by
  simp only [Broker.Keeps] at hatt ⊢
  cases l <;> simp only [Label.daemon, Option.some.injEq, reduceCtorEq] at hl <;> subst hl
  case shutdownExit b | die b => exact .inl (by simp [State.next, State.endBroker, hb])
  case bind b =>
    by_cases hnone : s.sock = none
    · have hmain : (s.broker b).main = .starting := hen
      right
      simpa [State.next, State.bind, hnone, State.setMain, State.setBroker, hmain, Main.early]
        using hatt
    · exact .inl (by simp [State.next, State.bind, hnone, State.endBroker, hb])
  case accept b c' valid => exact accept_keeps hen hatt
  case hangUp b c' removed =>
    by_cases hcc : c = c'
    · exact .inl (by simp [State.next, State.hangUp, hcc])
    · right
      simpa [State.next, State.hangUp, State.setBroker, List.mem_erase_of_ne hcc] using hatt
  case newState b =>
    have hmain : (s.broker b).main = .bound := hen
    have hnone := h.emptied b
    simp only [Broker.Emptied, hmain] at hnone
    right
    rcases hatt with hatt | hatt | ⟨-, rfl⟩
    · exact .inl (by simpa [State.next, State.setBroker] using hatt)
    · simp [hnone] at hatt
    · exact .inr (.inl (by simp [State.next, State.setBroker]))
  case closeLockCopy b | pipeFails b =>
    simp only [State.enabled] at hen
    right
    simpa [State.next, State.setMain, State.setBroker, State.unlock, hen, Main.early] using hatt
  case reply b c' => exact .inr hatt
  case startSession b c' | endSession b | waiterLock b | waiterUnlock b =>
    right
    simpa [State.next, State.setBroker, State.unlock] using hatt
  -- From here on the broker's state exists, and nothing is taken from its lists.
  all_goals
    simp only [State.enabled] at hen
    simp only [hen, Main.early, Bool.false_eq_true, false_and, or_false] at hatt
    right
    simp only [State.next, State.tryLock, State.armWaiter, State.setMain, State.setBroker,
      State.unlock]
    repeat' split
    all_goals
      simp only [Function.update_self]
      tauto

/-- What a broker attends to it attends to after every step. -/
theorem attended_kept (h : Admitted s) (hen : s.enabled l) {c : ℕ} (hc : c < s.nextConnection)
    (hatt : s.Attended c) : (s.next l).Attended c := by
  rcases hatt with hcut | hatt
  · exact .inl (cut_next hcut)
  have htarget : (s.next l).target c = s.target c := target_next hc
  rw [State.Attended, htarget]
  generalize hb : s.target c = b at hatt
  by_cases hl : l.daemon = some b
  · exact h.daemon_keeps hen hl hb hatt
  · right
    rcases State.broker_frame hen hl with e | ⟨f, r, -, -, -, -, e⟩ | ⟨f, r, -, hnew, e⟩
    · rwa [e]
    · rw [e]
      rcases hatt with hatt | hatt
      · exact .inl (List.mem_append_left _ hatt)
      · exact .inr hatt
    · rw [h.unborn b hnew.ge] at hatt
      simp [Broker.Keeps, Main.early] at hatt

theorem nextConnection_mono (s : State) (l : Label) :
    s.nextConnection ≤ (s.next l).nextConnection := by
  cases l
  case connect f r =>
    simp only [State.next, State.connect]
    split
    · exact le_rfl
    · split
      · exact Nat.le_succ _
      · exact le_rfl
  case spawnBroker f r => exact Nat.le_succ _
  case retry f r originator retryable => cases originator <;> exact le_rfl
  case finish f c originator => cases originator <;> exact le_rfl
  case bind b =>
    simp only [State.next, State.bind]
    split <;> exact le_rfl
  case tryLock b =>
    simp only [State.next, State.tryLock]
    split <;> exact le_rfl
  case accept b c valid => cases valid <;> exact le_rfl
  all_goals exact le_rfl

/-- A frontend gets a connection from its connect or with the broker it spawns. -/
theorem handshaking_step (hen : s.enabled l) {f c : ℕ}
    (hc : ((s.next l).front f).handshaking = some c) : (s.front f).handshaking = some c ∨
      (s.next l).nextConnection = c + 1 ∧ (s.next l).Attended c := by
  by_cases hl : l.frontend = some f
  · cases l <;> simp only [Label.frontend, Option.some.injEq, reduceCtorEq] at hl <;> subst hl
    case connect f r =>
      revert hc
      simp only [State.next, State.connect]
      split
      · simp [State.setFront, Front.handshaking]
      · rename_i b hb
        split
        · intro hc
          obtain rfl : s.nextConnection = c := by
            simpa [State.setFront, Front.handshaking] using hc
          right
          exact ⟨rfl, .inr (.inl (by simp [State.setFront, State.setBroker]))⟩
        · simp [State.setFront, Front.handshaking]
    case spawnBroker f r =>
      obtain rfl : s.nextConnection = c := by
        simpa [State.next, State.spawnBroker, State.setFront, Front.handshaking] using hc
      right
      refine ⟨rfl, .inr (.inr (.inr ?_))⟩
      simp [State.next, State.spawnBroker, State.setFront, State.setBroker, Main.early]
    case retry f r originator retryable =>
      simp only [State.next, State.setFront, Function.update_self, State.nextRound] at hc
      split at hc <;> simp [Front.handshaking] at hc
    all_goals
      simp only [State.enabled] at hen
      simp_all [State.next, State.leave, State.setFront, Front.handshaking]
  · rw [State.front_frame hl] at hc
    exact .inl hc

theorem attended_step (h : Admitted s) (hen : s.enabled l) (f c : ℕ)
    (hc : ((s.next l).front f).handshaking = some c) :
    c < (s.next l).nextConnection ∧ (s.next l).Attended c := by
  rcases handshaking_step hen hc with hc | ⟨hnew, hatt⟩
  · obtain ⟨hlt, hatt⟩ := h.attended f c hc
    exact ⟨hlt.trans_le (nextConnection_mono s l), h.attended_kept hen hlt hatt⟩
  · exact ⟨by omega, hatt⟩

theorem nextBroker_mono (s : State) (l : Label) : s.nextBroker ≤ (s.next l).nextBroker := by
  cases l
  case connect f r =>
    simp only [State.next, State.connect]
    split
    · exact le_rfl
    · split <;> exact le_rfl
  case spawnBroker f r => exact Nat.le_succ _
  case retry f r originator retryable => cases originator <;> exact le_rfl
  case finish f c originator => cases originator <;> exact le_rfl
  case bind b =>
    simp only [State.next, State.bind]
    split <;> exact le_rfl
  case tryLock b =>
    simp only [State.next, State.tryLock]
    split <;> exact le_rfl
  case accept b c valid => cases valid <;> exact le_rfl
  all_goals exact le_rfl

theorem unborn_step (h : Admitted s) (hen : s.enabled l) (b : ℕ)
    (hb : (s.next l).nextBroker ≤ b) :
    (s.next l).broker b = ⟨.unborn, 0, false, [], [], 0, .absent⟩ := by
  have hold := h.unborn b ((nextBroker_mono s l).trans hb)
  by_cases hl : l.daemon = some b
  · -- A broker that is not born takes no step.
    cases l <;> simp only [Label.daemon, Option.some.injEq, reduceCtorEq] at hl <;> subst hl <;>
      simp [State.enabled, hold, Main.accepts] at hen
  · rcases State.broker_frame hen hl with e | ⟨f, r, -, -, -, hlisten, -⟩ | ⟨f, r, rfl, rfl, -⟩
    · rw [e, hold]
    · simp [hold, Main.listening] at hlisten
    · exact absurd hb (by simp [State.next, State.spawnBroker])

theorem step (h : Admitted s) (hen : s.enabled l) : Admitted (s.next l) where
  named := h.named_step hen
  refused := h.refused_step hen
  front := h.front_step hen
  main := h.main_step hen
  attended := h.attended_step hen
  emptied := h.emptied_step hen
  unborn := h.unborn_step hen

theorem start : Admitted State.start where
  named b hb := by simp [State.start, Main.named, Main.listening] at hb
  refused f r hf := by simp [State.start] at hf
  front f hf := by simp [State.start, Front.holds] at hf
  main b hb := by simp [State.start, Main.holds] at hb
  attended f c hc := by simp [State.start, Front.handshaking] at hc
  emptied b := trivial
  unborn b _ := rfl

end Admitted

theorem admitted_of_reachable {s : State} (h : admission.Reachable s) : Admitted s :=
  h.invariant (P := Admitted) Admitted.start fun _ _ _ hA hen => hA.step hen

/-- The broker listens under the name it has bound. -/
def State.ListensAtPath (s : State) (b : ℕ) : Prop := (s.broker b).main.named = true

/-- The frontend has a connection to the broker that both ends hold open, and has not
done or given up its handshake. -/
def State.Shaking (s : State) (f b : ℕ) : Prop :=
  ∃ c, (s.front f).handshaking = some c ∧ s.target c = b ∧ s.cut c = false

/-- Two live brokers never listen at the socket path, the path leads to the one that
does, and the shutdown exit finds no session, no registered frontend and no frontend in
its handshake. -/
theorem one_broker_listens {s : State} (h : admission.Reachable s) :
    (∀ b b', s.ListensAtPath b → s.ListensAtPath b' → b = b') ∧
    (∀ b, s.ListensAtPath b → s.sock = some b) ∧
    ∀ b, s.enabled (.removeName b) ∨ s.enabled (.shutdownExit b) →
      (s.broker b).sessions = 0 ∧ (s.broker b).served = [] ∧ (s.broker b).backlog = [] ∧
        ∀ f, ¬ s.Shaking f b := by
  have hA := admitted_of_reachable h
  refine ⟨fun b b' hb hb' => ?_, hA.named, fun b hen => ?_⟩
  · have hsock := hA.named b hb
    simpa [hsock] using hA.named b' hb'
  · have hleft := hA.emptied b
    have hmain : (s.broker b).main = .removing ∨ (s.broker b).main = .exiting := hen
    have hearly : (s.broker b).main.early = false := by
      rcases hmain with hm | hm <;> simp [hm, Main.early]
    obtain ⟨hbacklog, hserved, hsessions⟩ : (s.broker b).backlog = [] ∧
        (s.broker b).served = [] ∧ (s.broker b).sessions = 0 := by
      rcases hmain with hm | hm <;> simpa [Broker.Emptied, hm] using hleft
    refine ⟨hsessions, hserved, hbacklog, ?_⟩
    rintro f ⟨c, hc, rfl, hopen⟩
    obtain ⟨-, hatt⟩ := hA.attended f c hc
    simp [State.Attended, Broker.Keeps, hopen, hbacklog, hserved, hearly] at hatt

-- a frontend spawns a broker, leaves, and the broker shuts down

def shutdownRun : List Label :=
  [.lockExclusive 0 ⟨0, false⟩, .connect 0 ⟨0, false⟩, .spawnBroker 0 ⟨0, false⟩,
    .closeLockCopy 0, .bind 0, .newState 0, .writeAck 0, .readAck 0 ⟨0, true⟩ 0 0,
    .unlockOriginator 0 ⟨0, true⟩ 0, .reply 0 0, .receiveReply 0 ⟨0, true⟩ 0 true,
    .finish 0 0 true, .startSession 0 0, .leave 0, .hangUp 0 0 0, .endSession 0, .poll 0 false,
    .checkIdle 0, .tryLock 0, .drained 0 0, .recheckIdle 0, .removeName 0]

theorem one_broker_listens_shutdown :
    ((admission.run admission.init shutdownRun).broker 0).sessions = 0 := by
  have hv : admission.Valid admission.init shutdownRun := by decide
  have hexit : (admission.run admission.init shutdownRun).enabled (.shutdownExit 0) := by decide
  exact ((one_broker_listens (System.Reachable.run .init shutdownRun hv)).2.2 0 (.inr hexit)).1

end Winsmux.RemoteHelper.Admission
