import Winsmux.Session.Clients

/-!
# Client accounting

The count, the registry, the sizes and the latest client agree as long as every request
finds the registry as it expects it. A request that does not breaks the agreement, so the
condition is exact.
-/
namespace Winsmux.Clients
open Transition

structure Accounted (app : AppState) (exited : Bool) : Prop where
  count : app.attachedClients = app.clientRegistry.size
  sizes : ∀ cid ∈ app.clientSizes, cid ∈ app.clientRegistry
  latest : ∀ cid ∈ app.latestClientId, cid ∈ app.clientRegistry
  destroyed : exited = true → app.clientRegistry.size = 0

/-- What a request expects of the registry. -/
def Fits (app : AppState) : CtrlReq → Prop
  | .clientAttach cid => cid ∉ app.clientRegistry
  | .clientDetach cid => cid ∈ app.clientRegistry ∨ app.clientRegistry.size = 0
  | .clientSize cid _ _ => cid ∈ app.clientRegistry
  | .mouse cid => app.mouseEnabled = true → cid ∈ app.clientRegistry
  | .controlRegister clientId => clientId ∉ app.clientRegistry
  | .controlDeregister clientId =>
    (clientId ∈ app.clientRegistry ∨ app.clientRegistry.size = 0) ∧
      clientId ∉ app.clientSizes ∧ app.latestClientId ≠ some clientId
  | _ => True

/-- Where the server takes a request, the request fits. -/
def Counted (w : World) : Action → Prop
  | .serve => ∀ req ∈ w.channel.head?, Fits w.app req
  | _ => True

section Maps
variable {β : Type} {m : Std.TreeMap ℕ β} {k a : ℕ} {v : β}

theorem mem_erase : a ∈ m.erase k ↔ k ≠ a ∧ a ∈ m := by simp [Std.TreeMap.mem_erase]

theorem mem_insert : a ∈ m.insert k v ↔ k = a ∨ a ∈ m := by simp [Std.TreeMap.mem_insert]

theorem mem_insertIfNew : a ∈ m.insertIfNew k v ↔ k = a ∨ a ∈ m := by
  simp [Std.TreeMap.mem_insertIfNew]

theorem size_erase : (m.erase k).size = if k ∈ m then m.size - 1 else m.size := by
  simp only [Std.TreeMap.size_erase, Std.TreeMap.contains_iff_mem]

theorem size_insert : (m.insert k v).size = if k ∈ m then m.size else m.size + 1 := by
  simp only [Std.TreeMap.size_insert, Std.TreeMap.contains_iff_mem]

theorem mem_of_maxKey? (h : m.maxKey? = some k) : k ∈ m :=
  (Std.TreeMap.maxKey?_eq_some_iff_mem_and_forall.1 h).1

end Maps

section Requests
variable {app : AppState} {cid : ℕ}

@[simp] theorem fitArea_attachedClients : app.fitArea.attachedClients = app.attachedClients := rfl

@[simp] theorem fitArea_clientRegistry : app.fitArea.clientRegistry = app.clientRegistry := rfl

@[simp] theorem fitArea_clientSizes : app.fitArea.clientSizes = app.clientSizes := rfl

@[simp] theorem fitArea_latestClientId : app.fitArea.latestClientId = app.latestClientId := rfl

theorem accounted_clientAttach (h : Accounted app false) :
    Accounted (app.clientAttach cid) false ↔ cid ∉ app.clientRegistry := by
  have hsize : (app.clientAttach cid).clientRegistry.size =
      if cid ∈ app.clientRegistry then app.clientRegistry.size else app.clientRegistry.size + 1 :=
    Std.TreeMap.size_insertIfNew
  constructor
  · intro h' hmem
    have hcount : app.attachedClients + 1 = _ := h'.count
    rw [hsize, if_pos hmem, h.count] at hcount
    omega
  · intro hnew
    refine ⟨?_, fun a ha => ?_, fun a ha => ?_, fun he => by contradiction⟩
    · rw [hsize, if_neg hnew, ← h.count]
      rfl
    · exact mem_insertIfNew.2 (.inr (h.sizes a ha))
    · exact mem_insertIfNew.2 (.inl (Option.some.inj ha))

theorem accounted_clientDetach {exited : Bool} (h : Accounted app false)
    (hexit : exited = true → (app.clientDetach cid).attachedClients = 0) :
    Accounted (app.clientDetach cid) exited ↔ cid ∈ app.clientRegistry ∨ app.clientRegistry.size = 0 := by
  have hsize : (app.clientDetach cid).clientRegistry.size =
      if cid ∈ app.clientRegistry then app.clientRegistry.size - 1 else app.clientRegistry.size :=
    size_erase
  have hcount : (app.clientDetach cid).attachedClients = app.clientRegistry.size - 1 := by
    show app.attachedClients - 1 = _
    rw [h.count]
  constructor
  · intro h'
    have hsame := h'.count
    rw [hcount, hsize] at hsame
    by_cases hmem : cid ∈ app.clientRegistry
    · exact .inl hmem
    · rw [if_neg hmem] at hsame
      exact .inr (by omega)
  · intro hok
    have hsame : (app.clientDetach cid).attachedClients = (app.clientDetach cid).clientRegistry.size := by
      rw [hcount, hsize]
      split
      · rfl
      · next hmem =>
        have hzero := hok.resolve_left hmem
        omega
    refine ⟨hsame, fun a ha => ?_, fun a ha => ?_, fun he => ?_⟩
    · obtain ⟨hne, ha⟩ := mem_erase.1 ha
      exact mem_erase.2 ⟨hne, h.sizes a ha⟩
    · have ha : (if app.latestClientId = some cid then none else app.latestClientId) = some a := ha
      split at ha
      · contradiction
      · next hne => exact mem_erase.2 ⟨fun he => hne (he ▸ ha), h.latest a ha⟩
    · rw [← hsame]
      exact hexit he

theorem accounted_forceDetachClient {exited : Bool} (h : Accounted app false)
    (hexit : exited = true → (app.forceDetachClient cid).attachedClients = 0) :
    Accounted (app.forceDetachClient cid) exited := by
  have hsame : (app.forceDetachClient cid).attachedClients =
      (app.forceDetachClient cid).clientRegistry.size := by
    show (if cid ∈ app.clientRegistry then app.attachedClients - 1 else app.attachedClients) =
      (app.clientRegistry.erase cid).size
    rw [size_erase, h.count]
  refine ⟨hsame, fun a ha => ?_, fun a ha => ?_, fun he => ?_⟩
  · obtain ⟨hne, ha⟩ := mem_erase.1 ha
    exact mem_erase.2 ⟨hne, h.sizes a ha⟩
  · have ha : (if app.latestClientId = some cid then (app.clientRegistry.erase cid).maxKey?
        else app.latestClientId) = some a := ha
    split at ha
    · exact mem_of_maxKey? ha
    · next hne => exact mem_erase.2 ⟨fun he => hne (he ▸ ha), h.latest a ha⟩
  · rw [← hsame]
    exact hexit he

theorem accounted_clientSize {width height : ℕ} (h : Accounted app false) :
    Accounted (app.clientSize cid width height) false ↔ cid ∈ app.clientRegistry := by
  have hmem (a : ℕ) : a ∈ (app.clientSize cid width height).clientRegistry ↔ a ∈ app.clientRegistry :=
    Std.TreeMap.mem_modify
  constructor
  · intro h'
    exact (hmem cid).1 (h'.latest cid rfl)
  · intro hc
    refine ⟨?_, fun a ha => ?_, fun a ha => ?_, fun he => by contradiction⟩
    · exact h.count.trans Std.TreeMap.size_modify.symm
    · obtain rfl | ha := mem_insert.1 ha
      · exact (hmem cid).2 hc
      · exact (hmem a).2 (h.sizes a ha)
    · obtain rfl := Option.some.inj ha
      exact (hmem cid).2 hc

theorem accounted_mouse (h : Accounted app false) :
    Accounted (app.mouse cid) false ↔ (app.mouseEnabled = true → cid ∈ app.clientRegistry) := by
  rw [AppState.mouse]
  split
  · next hmouse =>
    constructor
    · intro h' _
      exact h'.latest cid rfl
    · intro hc
      refine ⟨h.count, h.sizes, fun a ha => ?_, fun he => by contradiction⟩
      obtain rfl := Option.some.inj ha
      exact hc hmouse
  · next hmouse => exact ⟨fun _ hon => absurd hon hmouse, fun _ => h⟩

theorem accounted_controlRegister (h : Accounted app false) :
    Accounted (app.controlRegister cid) false ↔ cid ∉ app.clientRegistry := by
  have hsize : (app.controlRegister cid).clientRegistry.size =
      if cid ∈ app.clientRegistry then app.clientRegistry.size else app.clientRegistry.size + 1 :=
    size_insert
  constructor
  · intro h' hmem
    have hcount : app.attachedClients + 1 = _ := h'.count
    rw [hsize, if_pos hmem, h.count] at hcount
    omega
  · intro hnew
    refine ⟨?_, fun a ha => ?_, fun a ha => ?_, fun he => by contradiction⟩
    · rw [hsize, if_neg hnew, ← h.count]
      rfl
    · exact mem_insert.2 (.inr (h.sizes a ha))
    · exact mem_insert.2 (.inr (h.latest a ha))

/-- Deregistering forgets neither a size nor the latest client. -/
theorem accounted_controlDeregister (h : Accounted app false) :
    Accounted (app.controlDeregister cid) false ↔
      (cid ∈ app.clientRegistry ∨ app.clientRegistry.size = 0) ∧
        cid ∉ app.clientSizes ∧ app.latestClientId ≠ some cid := by
  have hsize : (app.controlDeregister cid).clientRegistry.size =
      if cid ∈ app.clientRegistry then app.clientRegistry.size - 1 else app.clientRegistry.size :=
    size_erase
  have hcount : (app.controlDeregister cid).attachedClients = app.clientRegistry.size - 1 := by
    show app.attachedClients - 1 = _
    rw [h.count]
  constructor
  · intro h'
    refine ⟨?_, fun hs => ?_, fun hl => ?_⟩
    · have hsame := h'.count
      rw [hcount, hsize] at hsame
      by_cases hmem : cid ∈ app.clientRegistry
      · exact .inl hmem
      · rw [if_neg hmem] at hsame
        exact .inr (by omega)
    · exact (mem_erase.1 (h'.sizes cid hs)).1 rfl
    · exact (mem_erase.1 (h'.latest cid hl)).1 rfl
  · intro ⟨hok, hs, hl⟩
    refine ⟨?_, fun a ha => ?_, fun a ha => ?_, fun he => by contradiction⟩
    · rw [hcount, hsize]
      split
      · rfl
      · next hmem =>
        have hzero := hok.resolve_left hmem
        omega
    · exact mem_erase.2 ⟨fun he => hs (he ▸ ha), h.sizes a ha⟩
    · exact mem_erase.2 ⟨fun he => hl (he ▸ ha), h.latest a ha⟩

/-- A request keeps the accounts right exactly where it fits. -/
theorem accounted_handle_iff (h : Accounted app false) (req : CtrlReq) :
    Accounted (app.handle req) (destroys req app) ↔ Fits app req := by
  have hexit : destroys req app = true → (app.handle req).attachedClients = 0 := by
    intro he
    simp only [destroys, Bool.and_eq_true, decide_eq_true_eq] at he
    exact he.1.2
  cases req with
  | clientAttach cid => exact accounted_clientAttach h
  | clientDetach cid => exact accounted_clientDetach h hexit
  | forceDetachClient cid => exact iff_of_true (accounted_forceDetachClient h hexit) trivial
  | clientSize cid width height => exact accounted_clientSize h
  | mouse cid => exact accounted_mouse h
  | controlRegister clientId => exact accounted_controlRegister h
  | controlDeregister clientId => exact accounted_controlDeregister h
  | setDestroyUnattached | setMouse | setWindowSize =>
    exact iff_of_true ⟨h.count, h.sizes, h.latest, fun he => by contradiction⟩ trivial

end Requests

/-- A step of a connection leaves the accounts to the server. -/
theorem next_app {w : World} {a : Action} (ha : a ≠ .serve) :
    (w.next a).app = w.app ∧ (w.next a).exited = w.exited := by
  cases a with
  | connect | connectControl => exact ⟨rfl, rfl⟩
  | line i l =>
    rw [World.next, World.line]
    split <;> exact ⟨rfl, rfl⟩
  | endOfStream i =>
    rw [World.next, World.endOfStream]
    split <;> exact ⟨rfl, rfl⟩
  | serve => exact absurd rfl ha

/-- In every run whose requests find the registry as they expect it, count, registry, sizes
and latest client agree, and a session is destroyed only without clients; and a request
that does not find it so breaks that. -/
theorem clients_accounted {area : ℕ × ℕ} {windowSize : WindowSize} {mouseEnabled destroyUnattached : Bool}
    {w : World}
    (hw : ((server (start area windowSize mouseEnabled destroyUnattached)).restrict Counted).Reachable w) :
    Accounted w.app w.exited ∧
    ∀ req channel, w.exited = false → w.channel = req :: channel →
      (Accounted w.serve.app w.serve.exited ↔ Fits w.app req) := by
  have hinv : Accounted w.app w.exited := by
    refine hw.invariant (P := fun w => Accounted w.app w.exited) ?_ ?_
    · exact ⟨rfl, fun a ha => absurd ha Std.TreeMap.not_mem_emptyc, fun a ha => by contradiction,
        fun he => by contradiction⟩
    · intro w a _ hacc ⟨hen, hok⟩
      by_cases ha : a = .serve
      · subst ha
        have hen : (!w.exited && decide (w.channel ≠ [])) = true := hen
        obtain ⟨hexit, hne⟩ := Bool.and_eq_true_iff.1 hen
        rw [Bool.not_eq_true'] at hexit
        obtain ⟨req, channel, hchannel⟩ := List.exists_cons_of_ne_nil (of_decide_eq_true hne)
        have hserve : w.serve = { w with app := w.app.handle req, exited := destroys req w.app, channel } := by
          rw [World.serve, hchannel]
        rw [hexit] at hacc
        show Accounted w.serve.app w.serve.exited
        rw [hserve]
        exact (accounted_handle_iff hacc req).2 (hok req (by rw [hchannel]; rfl))
      · obtain ⟨happ, hexit⟩ := next_app (w := w) ha
        show Accounted (w.next a).app (w.next a).exited
        rw [happ, hexit]
        exact hacc
  refine ⟨hinv, fun req channel hexit hchannel => ?_⟩
  have hserve : w.serve = { w with app := w.app.handle req, exited := destroys req w.app, channel } := by
    rw [World.serve, hchannel]
  rw [hserve]
  rw [hexit] at hinv
  exact accounted_handle_iff hinv req

/-- No clients, with `destroy-unattached` on. -/
def idle : World := start (80, 24) .latest true true

/-- Two clients attached. -/
def attachTwo : List Action :=
  [.connect, .connect, .line 0 .clientAttach, .line 1 .clientAttach, .serve, .serve]

theorem clients_accounted_attached :
    let w := (server idle).run idle [.connect, .line 0 .clientAttach, .serve]
    Accounted w.app w.exited ∧
    ∀ req channel, w.exited = false → w.channel = req :: channel →
      (Accounted w.serve.app w.serve.exited ↔ Fits w.app req) := by
  refine clients_accounted (System.Reachable.run (S := (server idle).restrict Counted) .init
    [.connect, .line 0 .clientAttach, .serve] ⟨⟨rfl, trivial⟩, ⟨rfl, trivial⟩, ⟨rfl, fun req hreq => ?_⟩, trivial⟩)
  obtain rfl := Option.some.inj hreq
  exact Std.TreeMap.not_mem_emptyc

/-- A client detached by force detaches once more when its stream ends: the session is
destroyed under the other client. -/
theorem force_detach_counts_twice :
    ¬ ∀ w : World, (server idle).Reachable w → Accounted w.app w.exited := by
  intro h
  have hv : (server idle).Valid idle
      (attachTwo ++ [.line 0 (.detachClient (some 2)), .serve, .endOfStream 1, .serve]) := by
    decide
  have hw := h _ (System.Reachable.run (S := server idle) .init _ hv)
  have hsize : ((server idle).run idle (attachTwo ++
      [.line 0 (.detachClient (some 2)), .serve, .endOfStream 1, .serve])).app.clientRegistry.size = 1 := by
    decide
  have hzero := hw.destroyed (by decide)
  exact absurd (hsize.symm.trans hzero) (by decide)

end Winsmux.Clients
