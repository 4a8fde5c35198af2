import Winsmux.Layout.WindowAccount

/-!
# References to windows

The server keeps two bare indices into the list of windows: the active window and the
window to go back to. The commands that edit the list repair the first, one of them
wrongly, and none repairs the second.
-/
namespace Winsmux.Layout
open PathTree Json Transition Positions

/-- The window to go back to is the same one where it is left. -/
def LastStays (s s' : Server) : Prop :=
  ∀ id, s.windowIds[s.lastWindowIdx]? = some id → id ∈ s'.windowIds → s'.windowIds[s'.lastWindowIdx]? = some id

/-- References follow their windows. -/
structure Follows (s : Server) (c : WindowCommand) (s' : Server) : Prop where
  inRange : s'.windows ≠ [] → s'.activeIdx < s'.windows.length
  /-- The windows neither made nor removed are all there, each once. -/
  once : s'.windowIds.Nodup
  conserved : s'.windowIds.Perm (survivors (c.removes s) s.windowIds ++ c.created s)
  stays : c.idle s = true → ∀ id ∈ s.activeId, s'.activeId = some id
  moved : ∀ target, c = .moveWindow target → s'.activeId = s.activeId
  linked : ∀ src dst refused, c = .linkWindow src dst refused →
    s'.activeId = some s.nextWinId ∨ s'.activeId = s.activeId
  last : s'.activeId = s.activeId → LastStays s s'

/-- Where the command leaves the entry at the last index in its place, or removes it. -/
def LastUnmoved (s : Server) : WindowCommand → Prop
  | .moveWindow (some target) => s.another target = true →
    s.insertIdx target = s.activeIdx ∨ s.lastWindowIdx < min s.activeIdx (s.insertIdx target) ∨
      max s.activeIdx (s.insertIdx target) < s.lastWindowIdx
  | .swapWindow target => s.another target = true → s.lastWindowIdx ≠ s.activeIdx ∧ s.lastWindowIdx ≠ target
  | .linkWindow src dst refused => s.links src refused = true →
    s.lastWindowIdx < dst.getD s.windows.length ∨ s.windows.length ≤ s.lastWindowIdx
  | c => s.windows.length ≤ s.lastWindowIdx ∨ c.removes s s.lastWindowIdx = true ∨
    ∀ i < s.lastWindowIdx, c.removes s i = false

/-- The state before a command that keeps the references right. -/
def KeepsReferences (s : Server) : WindowCommand → Prop
  | .moveWindow target => LastUnmoved s (.moveWindow target)
  | .linkWindow src dst refused => s.links src refused = true →
    s.windows.length ≤ dst.getD s.windows.length + 1 ∨
      s.activeIdx + 2 = s.windows.length ∧ LastUnmoved s (.linkWindow src dst refused)
  | .layout (.reapChildren exited) =>
    s.gone exited s.activeIdx = true ∨ LastUnmoved s (.layout (.reapChildren exited))
  | _ => True

namespace Server
variable {s s' : Server} {c : WindowCommand}

theorem lastStays_iff (h : s'.lastWindowIdx = s.lastWindowIdx) :
    LastStays s s' ↔ StaysAt s.windowIds s'.windowIds s.lastWindowIdx := by
  rw [LastStays, h]
  rfl

theorem lastStays_refl (s : Server) : LastStays s s := fun _ h _ => h

/-- What is left to show of a command once its account is known. -/
theorem follows_of_account (hs : Numbered s) (ha : Account s c s')
    (hstays : c.idle s = true → ∀ id ∈ s.activeId, s'.activeId = some id)
    (hmoved : ∀ target, c = .moveWindow target → s'.activeId = s.activeId)
    (hlinked : ∀ src dst refused, c = .linkWindow src dst refused →
      s'.activeId = some s.nextWinId ∨ s'.activeId = s.activeId)
    (hlast : s'.activeId = s.activeId → LastStays s s') : Follows s c s' where
  inRange hne := by
    have := (hs.step ha).inRange
    have := List.length_pos_of_ne_nil hne
    omega
  once := (hs.step ha).nodup
  conserved := ha.perm
  stays := hstays
  moved := hmoved
  linked := hlinked
  last := hlast

theorem listed_lastStays (hs : Numbered s) (hl : Listed s c s') :
    LastStays s s' ↔ s.windows.length ≤ s.lastWindowIdx ∨ c.removes s s.lastWindowIdx = true ∨
      ∀ i < s.lastWindowIdx, c.removes s i = false := by
  rw [lastStays_iff hl.last, hl.ids, staysAt_survivors hs.nodup (hs.fresh c), length_windowIds]

theorem listed_stays (hl : Listed s c s') (hi : c.idle s = true) : ∀ id ∈ s.activeId, s'.activeId = some id := by
  intro id hid
  obtain ⟨hactive, hr⟩ := hl.idle hi
  rw [activeId, hl.ids, survivors_of_none hr, hactive]
  exact staysAt_append _ _ _ id hid (List.mem_append_left _ (List.mem_of_getElem? hid))

/-- Where the active window goes, another one is active. -/
theorem active_switches (hs : Numbered s) (ha : Account s c s') (hr : c.removes s s.activeIdx = true)
    (hlt : s.activeIdx < s.windows.length) : s'.activeId ≠ s.activeId := by
  intro he
  obtain ⟨id, hid⟩ : ∃ id, s.windowIds[s.activeIdx]? = some id :=
    ⟨_, List.getElem?_eq_getElem (by rwa [length_windowIds])⟩
  have hmem : id ∈ s'.windowIds := List.mem_of_getElem? (he.trans hid)
  rcases List.mem_append.1 (ha.perm.mem_iff.1 hmem) with hold | hnew
  · obtain ⟨k, hk, hgone⟩ := mem_survivors.1 hold
    rw [index_unique hs.nodup hk hid, hr] at hgone
    contradiction
  · exact hs.fresh c id hnew (List.mem_of_getElem? hid)

theorem removes_only_active (hreap : ∀ exited, c ≠ .layout (.reapChildren exited)) {i : ℕ}
    (h : c.removes s i = true) : i = s.activeIdx := by
  cases c with
  | layout c =>
    cases c with
    | reapChildren exited => exact absurd rfl (hreap exited)
    | breakPane => simp only [WindowCommand.removes, Bool.and_eq_true, decide_eq_true_eq] at h; exact h.1
    | joinPane target => simp only [WindowCommand.removes, Bool.and_eq_true, decide_eq_true_eq] at h; exact h.2.1
    | movePane target => simp only [WindowCommand.removes, Bool.and_eq_true, decide_eq_true_eq] at h; exact h.2.1
    | killWindow => simp only [WindowCommand.removes, Bool.and_eq_true, decide_eq_true_eq] at h; exact h.2
    | _ => contradiction
  | unlinkWindow => simp only [WindowCommand.removes, Bool.and_eq_true, decide_eq_true_eq] at h; exact h.2
  | _ => contradiction

/-- A command that removes at most the active window keeps the references, since it
switches windows where it removes one. -/
theorem follows_listed (hs : Numbered s) (hl : Listed s c s')
    (hreap : ∀ exited, c ≠ .layout (.reapChildren exited)) (hmove : ∀ target, c ≠ .moveWindow target)
    (hlink : ∀ src dst refused, c ≠ .linkWindow src dst refused) : Follows s c s' := by
  refine follows_of_account hs hl.account (listed_stays hl) (fun t h => absurd h (hmove t))
    (fun src dst refused h => absurd h (hlink src dst refused)) fun he => ?_
  rw [listed_lastStays hs hl]
  by_cases hlen : s.windows.length ≤ s.lastWindowIdx
  · exact .inl hlen
  have hkeep : c.removes s s.activeIdx = false := by
    rw [← Bool.not_eq_true]
    exact fun hr => active_switches hs hl.account hr (by have := hs.inRange; omega) he
  refine .inr (.inr fun i _ => ?_)
  rw [← Bool.not_eq_true]
  intro hr
  rw [removes_only_active hreap hr, hkeep] at hr
  contradiction

theorem follows_reapChildren (hs : Numbered s) (exited : List ℕ) :
    Follows s (.layout (.reapChildren exited)) (s.reapChildren exited) ↔
      KeepsReferences s (.layout (.reapChildren exited)) := by
  have hl := listed_reapChildren exited s
  have hr := reapedTo_zero exited s
  constructor
  · intro hf
    cases hg : s.gone exited s.activeIdx with
    | true => exact .inl hg
    | false =>
      refine .inr ?_
      by_cases hlen : s.windows.length ≤ s.lastWindowIdx
      · exact .inl hlen
      · exact (listed_lastStays hs hl).1 (hf.last (hr.active (by have := hs.inRange; omega) hg))
  · intro hk
    refine follows_of_account hs hl.account (listed_stays hl) (fun t h => nomatch h)
      (fun src dst refused h => nomatch h) fun he => ?_
    rw [listed_lastStays hs hl]
    rcases hk with hg | hk
    · by_cases hlen : s.windows.length ≤ s.lastWindowIdx
      · exact .inl hlen
      · exact absurd he (active_switches hs hl.account hg (by have := hs.inRange; omega))
    · exact hk

theorem follows_moveWindow (hs : Numbered s) {target : Option ℕ} (h : s.moveWindow target = .ok s') :
    (Follows s (.moveWindow target) s' ↔ LastUnmoved s (.moveWindow target)) ∧
      (LastStays s s' ↔ LastUnmoved s (.moveWindow target)) := by
  suffices hsuff : s'.activeId = s.activeId ∧ (LastStays s s' ↔ LastUnmoved s (.moveWindow target)) by
    obtain ⟨hactive, hlast⟩ := hsuff
    refine ⟨?_, hlast⟩
    rw [← hlast]
    exact ⟨fun hf => hf.last hactive, fun hl => follows_of_account hs (account_moveWindow h)
      (fun _ id hid => hactive.trans hid) (fun _ _ => hactive) (fun _ _ _ hc => nomatch hc) fun _ => hl⟩
  cases hto : target.any s.another with
  | false =>
    obtain rfl := moveWindow_idle hto h
    refine ⟨rfl, iff_of_true (lastStays_refl _) ?_⟩
    cases target with
    | none => exact .inr (.inr fun _ _ => rfl)
    | some target =>
      intro ht
      rw [Option.any_some, ht] at hto
      contradiction
  | true =>
    obtain ⟨target, rfl, ht⟩ : ∃ t, target = some t ∧ s.another t = true := by
      simpa [Option.any_eq_true] using hto
    obtain ⟨w, hm⟩ := moveWindow_moves ht h
    have ha : s.windowIds[s.activeIdx]? = some w.id := windowIds_getElem? hm.window
    have hp : s.insertIdx target < s.windowIds.length := by rw [length_windowIds]; exact insertIdx_lt ht
    constructor
    · have hlt := (List.getElem?_eq_some_iff.1 ha).1
      rw [activeId, activeId, hm.ids, hm.active, List.getElem?_insertIdx_self, if_pos, ha]
      rw [List.length_eraseIdx_of_lt hlt]
      omega
    · rw [lastStays_iff hm.last, hm.ids, staysAt_move hs.nodup ha hp]
      exact ⟨fun h _ => h, fun h => h ht⟩

theorem follows_swapWindow (hs : Numbered s) {target : ℕ} (h : s.swapWindow target = .ok s') :
    Follows s (.swapWindow target) s' ∧ (LastStays s s' ↔ LastUnmoved s (.swapWindow target)) := by
  cases hto : s.another target with
  | false =>
    obtain rfl := swapWindow_idle hto h
    refine ⟨?_, iff_of_true (lastStays_refl _) fun ht => ?_⟩
    · exact follows_of_account hs (account_swapWindow h) (fun _ _ hid => hid) (fun _ hc => nomatch hc)
        (fun _ _ _ hc => nomatch hc) fun _ => lastStays_refl _
    · rw [hto] at ht
      contradiction
  | true =>
    obtain ⟨a, b, hsw⟩ := swapWindow_swaps hto h
    obtain ⟨hlt, hne⟩ := another_eq_true.1 hto
    have ha := windowIds_getElem? hsw.active
    have hb := windowIds_getElem? hsw.other
    refine ⟨?_, ?_⟩
    · refine follows_of_account hs (account_swapWindow h) (fun hi => ?_) (fun _ hc => nomatch hc)
        (fun _ _ _ hc => nomatch hc) fun he => ?_
      · simp [WindowCommand.idle, hto] at hi
      · have hid : s'.activeId = some b.id := by
          rw [activeId, hsw.ids, hsw.index, List.getElem?_set_ne hne, List.getElem?_set_self]
          exact (List.getElem?_eq_some_iff.1 ha).1
        rw [hid, eq_comm] at he
        exact absurd (index_unique hs.nodup hb he) hne
    · rw [lastStays_iff hsw.last, hsw.ids, staysAt_swap hs.nodup ha hb hne.symm]
      exact ⟨fun h _ => h, fun h => h hto⟩

theorem follows_linkWindow (hs : Numbered s) (src dst : Option ℕ) (refused : Bool) :
    (Follows s (.linkWindow src dst refused) (s.linkWindow src dst refused) ↔
        KeepsReferences s (.linkWindow src dst refused)) ∧
      (LastStays s (s.linkWindow src dst refused) ↔ LastUnmoved s (.linkWindow src dst refused)) := by
  have hacc := account_linkWindow src dst refused s
  cases hl : s.links src refused with
  | false =>
    have hno : ¬ s.links src refused = true := by simp [hl]
    rw [linkWindow_idle dst hl] at hacc ⊢
    refine ⟨iff_of_true ?_ fun h => absurd h hno, iff_of_true (lastStays_refl s) fun h => absurd h hno⟩
    exact follows_of_account hs hacc (fun _ _ hid => hid) (fun _ hc => nomatch hc)
      (fun _ _ _ _ => .inr rfl) fun _ => lastStays_refl s
  | true =>
    have h := linkWindow_links dst hl
    generalize s.linkWindow src dst refused = s' at h hacc
    have hnew : s.nextWinId ∉ s.windowIds := fun hmem => Nat.lt_irrefl _ (hs.below _ hmem)
    have hlast : LastStays s s' ↔ LastUnmoved s (.linkWindow src dst refused) := by
      rw [lastStays_iff h.last, h.ids, staysAt_insertIdx hs.nodup (by rw [length_windowIds]; exact min_le_right ..)
        hnew, length_windowIds]
      simp only [LastUnmoved, hl, forall_const]
      omega
    refine ⟨?_, hlast⟩
    have hstart : 0 < s.windows.length := by
      rw [links, Bool.and_eq_true, decide_eq_true_eq] at hl
      omega
    have hfollows : (s'.activeId = some s.nextWinId ∨ s'.activeId = s.activeId) →
        (s'.activeId = s.activeId → LastStays s s') → Follows s (.linkWindow src dst refused) s' :=
      fun hlinked hstay => follows_of_account hs hacc (fun hi => by simp [WindowCommand.idle, hl] at hi)
        (fun _ hc => nomatch hc) (fun _ _ _ _ => hlinked) hstay
    have hactive : s'.activeId = if s.windows.length ≤ dst.getD s.windows.length + 1 then some s.nextWinId
        else s.windowIds[s.windows.length - 2]? := by
      rw [activeId, h.ids]
      by_cases hd : s.windows.length ≤ dst.getD s.windows.length + 1
      · have hplace : s'.activeIdx = min (dst.getD s.windows.length) s.windows.length := by
          rw [h.active]
          split <;> omega
        rw [if_pos hd, hplace, List.getElem?_insertIdx_self, if_pos]
        rw [length_windowIds]
        exact min_le_right ..
      · rw [if_neg hd, h.active, if_pos (by omega), min_eq_left (by omega),
          List.getElem?_insertIdx_of_gt (by omega)]
        rfl
    by_cases hd : s.windows.length ≤ dst.getD s.windows.length + 1
    · rw [if_pos hd] at hactive
      refine iff_of_true (hfollows (.inl hactive) fun he => ?_) fun _ => .inl hd
      exact absurd (List.mem_of_getElem? (he.symm.trans hactive)) hnew
    · rw [if_neg hd] at hactive
      have hpen : ∃ id, s.windowIds[s.windows.length - 2]? = some id :=
        ⟨_, List.getElem?_eq_getElem (by rw [length_windowIds]; omega)⟩
      obtain ⟨id, hid⟩ := hpen
      constructor
      · intro hf _
        have hsame : s'.activeId = s.activeId := by
          refine (hf.linked src dst refused rfl).resolve_left fun he => hnew ?_
          exact List.mem_of_getElem? (hactive.symm.trans he)
        have := index_unique hs.nodup (hsame.symm.trans (hactive.trans hid)) hid
        exact .inr ⟨by omega, hlast.1 (hf.last hsame)⟩
      · intro hk
        obtain ⟨ha, hun⟩ := (hk hl).resolve_left hd
        have hsame : s'.activeId = s.activeId := by
          rw [hactive, activeId]
          congr 1
          omega
        exact hfollows (.inr hsame) fun _ => hlast.2 hun

end Server

open Server in
theorem follows_step {s s' : Server} {c : WindowCommand} (hs : Numbered s) (he : c.editsWindows = true)
    (h : c.step s = .ok s') :
    (Follows s c s' ↔ KeepsReferences s c) ∧ (LastStays s s' ↔ LastUnmoved s c) := by
  cases hr : c.reorders with
  | true =>
    cases c with
    | moveWindow target => exact follows_moveWindow hs h
    | swapWindow target =>
      obtain ⟨hf, hl⟩ := follows_swapWindow hs h
      exact ⟨iff_of_true hf trivial, hl⟩
    | linkWindow src dst refused =>
      obtain rfl := Except.ok.inj h
      exact follows_linkWindow hs src dst refused
    | _ => contradiction
  | false =>
    have hl := listed_step he hr h
    have hlast := listed_lastStays hs hl
    cases c with
    | layout c =>
      cases c with
      | reapChildren exited =>
        obtain rfl := Except.ok.inj h
        exact ⟨follows_reapChildren hs exited, hlast⟩
      | newWindow | breakPane | joinPane | movePane | killWindow =>
        exact ⟨iff_of_true (follows_listed hs hl (by simp) (by simp) (by simp)) trivial, hlast⟩
      | _ => contradiction
    | unlinkWindow => exact ⟨iff_of_true (follows_listed hs hl (by simp) (by simp) (by simp)) trivial, hlast⟩
    | _ => contradiction

/-- A server with the window that was left by the last switch. -/
structure Journey where
  server : Server
  left : Option ℕ

/-- The server from a start, its switches recorded by the id of the window left. -/
def journey (s0 : Server) : System Journey WindowCommand where
  init := ⟨s0, none⟩
  enabled j c := (windowSession s0).enabled j.server c
  next j c :=
    ⟨(windowSession s0).next j.server c, if c.departs j.server then j.server.activeId else j.left⟩

instance journey.decidable (s0 : Server) (j : Journey) (c : WindowCommand) :
    Decidable ((journey s0).enabled j c) :=
  inferInstanceAs (Decidable ((c.step j.server).isOk = true))

theorem server_reachable {s0 : Server} {j : Journey} (h : (journey s0).Reachable j) :
    (windowSession s0).Reachable j.server := by
  induction h with
  | init => exact .init
  | step _ hc ih => exact ih.step hc

/-- The window left is the one at the last index, while it is there. -/
structure Back (j : Journey) : Prop where
  below : ∀ id ∈ j.left, id < j.server.nextWinId
  stands : ∀ id ∈ j.left, id ∈ j.server.windowIds → j.server.windowIds[j.server.lastWindowIdx]? = some id

theorem lastStays_step {s s' : Server} {c : WindowCommand} (hs : Numbered s) (hd : c.departs s = false)
    (hu : LastUnmoved s c) (h : c.step s = .ok s') : LastStays s s' := by
  cases he : c.editsWindows with
  | true => exact (follows_step hs he h).2.2 hu
  | false =>
    cases hsw : c.switches with
    | true =>
      have := switched_step hsw h
      rw [hd, if_neg Bool.false_ne_true] at this
      rw [this]
      exact Server.lastStays_refl s
    | false =>
      have hst := steady_step he hsw h
      rw [Server.lastStays_iff hst.last, hst.ids]
      exact staysAt_refl _ _

/-- A window that was there and is there has been there. -/
theorem Account.mem_of_mem {s s' : Server} {c : WindowCommand} (h : Account s c s') {id : ℕ}
    (hlt : id < s.nextWinId) (hid : id ∈ s'.windowIds) : id ∈ s.windowIds := by
  rcases List.mem_append.1 (h.perm.mem_iff.1 hid) with hold | hnew
  · exact (survivors_sublist ..).subset hold
  · rcases created_eq s c with hc | hc
    · simp [hc] at hnew
    · obtain rfl : id = s.nextWinId := by simpa [hc] using hnew
      exact absurd hlt (Nat.lt_irrefl _)

theorem Back.step {j : Journey} {s' : Server} {c : WindowCommand} (hj : Back j) (hs : Numbered j.server)
    (hu : LastUnmoved j.server c) (h : c.step j.server = .ok s') :
    Back ⟨s', if c.departs j.server then j.server.activeId else j.left⟩ := by
  have hacc := account_step h
  have hnext : j.server.nextWinId ≤ s'.nextWinId := by
    rw [hacc.next]
    exact Nat.le_add_right ..
  cases hd : c.departs j.server with
  | true =>
    have hsw : c.switches = true := by
      cases c with
      | layout c => cases c <;> first | rfl | contradiction
      | _ => contradiction
    have hs' := switched_step hsw h
    rw [hd, if_pos rfl] at hs'
    have hids : s'.windowIds = j.server.windowIds := congrArg (List.map Window.id) hs'.windows
    refine ⟨fun id hid => ?_, fun id hid _ => ?_⟩
    · exact (hs.below id (List.mem_of_getElem? (Option.mem_def.1 hid))).trans_le hnext
    · show s'.windowIds[s'.lastWindowIdx]? = some id
      rw [hids, hs'.left]
      exact hid
  | false =>
    refine ⟨fun id hid => (hj.below id hid).trans_le hnext, fun id hid hmem => ?_⟩
    have hold := hacc.mem_of_mem (hj.below id hid) hmem
    exact lastStays_step hs hd hu h id (hj.stands id hid hold) hmem

theorem back_of_reachable {options : Options} {area : Rect} {paneId winId : ℕ} {j : Journey}
    (h : ((journey (start options area paneId winId)).restrict
      fun j c => LastUnmoved j.server c).Reachable j) : Back j := by
  refine h.invariant ⟨(fun id hid => nomatch hid), (fun id hid => nomatch hid)⟩ fun j c hreach hj hc => ?_
  exact hj.step (numbered_of_reachable (server_reachable hreach.of_restrict)) hc.2 (windowSession_next hc.1)

/-- For every reachable state and every command on windows: the references follow exactly
where the state keeps them; the window to go back to is the same one exactly where it is
not moved. In a run that never moves it, the command for the last window returns to the
window left last, while it is there. -/
theorem window_references_follow (options : Options) (area : Rect) (paneId winId : ℕ) :
    (∀ s, (windowSession (start options area paneId winId)).Reachable s →
      ∀ c s', c.editsWindows = true → c.step s = .ok s' →
        (Follows s c s' ↔ KeepsReferences s c) ∧ (LastStays s s' ↔ LastUnmoved s c)) ∧
    ∀ j, ((journey (start options area paneId winId)).restrict
        fun j c => LastUnmoved j.server c).Reachable j →
      ∀ id ∈ j.left, id ∈ j.server.windowIds → 1 < j.server.windows.length →
        j.server.lastWindow.activeId = some id := by
  refine ⟨fun s hs c s' he h => follows_step (numbered_of_reachable hs) he h, fun j hj id hid hmem hlen => ?_⟩
  have hback := (back_of_reachable hj).stands id hid hmem
  have hlt : j.server.lastWindowIdx < j.server.windows.length := by
    simpa using (List.getElem?_eq_some_iff.1 hback).1
  rw [Server.lastWindow, if_pos ⟨hlen, hlt⟩]
  exact hback

/-- Two more windows, the third in focus. -/
def threeWindows : List WindowCommand :=
  [.layout (.newWindow true false false .refused), .layout (.newWindow true false false .refused)]

/-- A window linked to the front of three leaves none of the two right ones active; the way
back from the first window is to the third. -/
theorem window_references_follow_three :
    let s := (windowSession terminal).run terminal threeWindows
    let linked := s.linkWindow none (some 0) false
    let back := (journey terminal).run ⟨terminal, none⟩ (threeWindows ++ [.layout (.selectWindow 0)])
    ¬ Follows s (.linkWindow none (some 0) false) linked ∧ back.left = some 3 ∧
      back.server.lastWindow.activeId = some 3 := by
  intro s linked back
  have h := window_references_follow ⟨0, 0, 0, 0, false⟩ ⟨0, 0, 80, 24⟩ 1 1
  have hs : (windowSession terminal).Reachable s :=
    System.Reachable.run (S := windowSession terminal) .init threeWindows (by decide)
  refine ⟨fun hf => ?_, by decide, ?_⟩
  · have hk := (h.1 s hs (.linkWindow none (some 0) false) linked rfl rfl).1.1 hf
    revert hk
    simp only [KeepsReferences, LastUnmoved]
    decide
  · have hkept (s : Server) (c : Command) (hc : ∀ i, WindowCommand.removes s (.layout c) i = false) :
        LastUnmoved s (.layout c) := .inr (.inr fun i _ => hc i)
    have hback : ((journey terminal).restrict fun j c => LastUnmoved j.server c).Reachable back :=
      System.Reachable.run .init _ ⟨⟨by decide, hkept _ _ fun _ => rfl⟩,
        ⟨by decide, hkept _ _ fun _ => rfl⟩, ⟨by decide, hkept _ _ fun _ => rfl⟩, trivial⟩
    exact h.2 back hback 3 (by decide) (by decide) (by decide)

/-- Windows 1 and 3 of three by turns in focus, so that the way back is to 1. -/
def betweenEnds : List WindowCommand :=
  threeWindows ++ [.layout (.selectWindow 0), .layout (.selectWindow 2)]

/-- The window linked in is 4 and the one active before is 3, yet 2 becomes active. Where 3 is
moved to the front instead, the way back leads from 3 to itself and no longer to 1. -/
theorem link_activates_another :
    let s := (windowSession terminal).run terminal threeWindows
    let between := (windowSession terminal).run terminal betweenEnds
    ((windowSession terminal).Reachable s ∧
      (WindowCommand.linkWindow none (some 0) false).step s = .ok (s.linkWindow none (some 0) false) ∧
      s.activeId = some 3 ∧ s.nextWinId = 4 ∧ (s.linkWindow none (some 0) false).activeId = some 2 ∧
      ¬ Follows s (.linkWindow none (some 0) false) (s.linkWindow none (some 0) false)) ∧
    (windowSession terminal).Reachable between ∧ between.lastWindow.activeId = some 1 ∧
      ∃ moved, (WindowCommand.moveWindow (some 0)).step between = .ok moved ∧ moved.activeId = some 3 ∧
        moved.lastWindow.activeId = some 3 ∧ ¬ Follows between (.moveWindow (some 0)) moved := by
  refine ⟨⟨System.Reachable.run (S := windowSession terminal) .init threeWindows (by decide), rfl, by decide,
    by decide, by decide, fun hf => ?_⟩,
    System.Reachable.run (S := windowSession terminal) .init betweenEnds (by decide), by decide,
    (windowSession terminal).run terminal (betweenEnds ++ [.moveWindow (some 0)]), rfl, by decide, by decide,
    fun hf => ?_⟩
  · have := hf.linked _ _ _ rfl
    revert this
    decide
  · have := hf.last (by decide)
    revert this
    simp only [LastStays]
    decide

end Winsmux.Layout
