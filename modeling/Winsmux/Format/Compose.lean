import Winsmux.Format.Readings

/-!
# Formats in a row

A format followed by another expands to the two texts in a row, but for what the first does
to the pane: the position of the pane is set for a whole list of panes, a loop over panes
inside of a format sets it too and then clears it, and what follows is about the active pane.
-/
namespace Winsmux.Format
open CharText

section
variable {m : Type → Type} [Monad m] [LawfulMonad m] (fx : Effects m) (outside : Outside) (app : App)

theorem expandText_append (nested again : Chars → ℕ → m Chars) {f g : Chars} (h : Whole f) (hf : '%' ∉ f)
    (hg : '%' ∉ g) (winIdx : ℕ) :
    expandText fx outside app nested again (f ++ g) winIdx = (do
      let a ← expandText fx outside app nested again f winIdx
      let b ← expandText fx outside app nested again g winIdx
      pure (a ++ b)) := by
  simp [expandText, hf, hg, h.tokens_append, List.mapM_append]

/-- A format that is one expression. -/
theorem expandText_expr (nested again : Chars → ℕ → m Chars) {fmt inner : Chars} (h : tokens fmt = [.expr inner])
    (hf : '%' ∉ fmt) (winIdx : ℕ) :
    expandText fx outside app nested again fmt winIdx =
      expandExpression fx outside app nested again inner winIdx := by
  simp [expandText, hf, h, expandToken, protect]

end

/-- What one run returns, the other does. -/
def keeping : MonadRelation Run Run where
  Rel x y := ∀ s r, x.run s = .ok r → y.run s = .ok r
  rel_pure _ _ _ h := h
  rel_bind {α β x y f g} hx hf s r h := by
    obtain ⟨a, t, ha, hb⟩ := run_bind_eq_ok.1 h
    exact run_bind_eq_ok.2 ⟨a, t, hx s _ ha, hf a t r hb⟩

variable (outside : Outside) (app : App)

theorem stopping_keeping : Stopping keeping running running where
  stop s a t r h := by cases h

theorem related_keeping : Related keeping running running outside app where
  toStopping := stopping_keeping
  var var winIdx s r h := h
  atPane {α} pos {x y} h s r hr := by
    obtain ⟨v, s'⟩ := r
    obtain ⟨hs, t, ht⟩ := running_atPane_eq_ok.1 hr
    exact running_atPane_eq_ok.2 ⟨hs, t, h _ _ ht⟩

theorem expandFormatForWindow_mono {n k : ℕ} (hnk : n ≤ k) (fmt : Chars) (winIdx : ℕ) :
    keeping.Rel (expandFormatForWindow running outside app n fmt winIdx)
      (expandFormatForWindow running outside app k fmt winIdx) := by
  induction n generalizing k fmt winIdx with
  | zero => exact fun s r h => by cases h
  | succ n ih =>
    obtain ⟨k, rfl⟩ := Nat.exists_eq_add_one_of_ne_zero (Nat.ne_of_gt (Nat.lt_of_lt_of_le n.succ_pos hnk))
    exact (related_keeping outside app).expandText (fun s w _ => ih (Nat.le_of_succ_le_succ hnk) s w)
      (fun s w => ih (Nat.le_of_succ_le_succ hnk) s w) winIdx

variable {outside app}

/-- A format expands to one text. -/
theorem ExpandsTo.unique {fmt : Chars} {winIdx : ℕ} {s s₁ s₂ : Option ℕ} {a b : Chars}
    (ha : ExpandsTo outside app fmt winIdx s a s₁) (hb : ExpandsTo outside app fmt winIdx s b s₂) :
    a = b ∧ s₁ = s₂ := by
  obtain ⟨n, hn⟩ := ha
  obtain ⟨k, hk⟩ := hb
  have ha' := expandFormatForWindow_mono outside app (Nat.le_max_left n k) fmt winIdx s _ hn
  have hb' := expandFormatForWindow_mono outside app (Nat.le_max_right n k) fmt winIdx s _ hk
  rw [ha'] at hb'
  cases hb'
  exact ⟨rfl, rfl⟩

/-- The second text is expanded for the pane that the first leaves. -/
theorem expandsTo_append_iff {f g : Chars} (h : Whole f) (hf : '%' ∉ f) (hg : '%' ∉ g) {winIdx : ℕ}
    {s s' : Option ℕ} {v : Chars} :
    ExpandsTo outside app (f ++ g) winIdx s v s' ↔
      ∃ a s₁ b, ExpandsTo outside app f winIdx s a s₁ ∧ ExpandsTo outside app g winIdx s₁ b s' ∧ v = a ++ b := by
  have hstep : ∀ n, expandFormatForWindow running outside app (n + 1) (f ++ g) winIdx = (do
      let a ← expandFormatForWindow running outside app (n + 1) f winIdx
      let b ← expandFormatForWindow running outside app (n + 1) g winIdx
      pure (a ++ b)) := fun n => expandText_append running outside app _ _ h hf hg winIdx
  refine ⟨fun ⟨n, hn⟩ => ?_, fun ⟨a, s₁, b, ⟨n, hn⟩, ⟨k, hk⟩, hv⟩ => ⟨max n k + 1, ?_⟩⟩
  · cases n with
    | zero => cases hn
    | succ n =>
      rw [hstep] at hn
      obtain ⟨a, s₁, ha, hn⟩ := run_bind_eq_ok.1 hn
      obtain ⟨b, s₂, hb, hn⟩ := run_bind_eq_ok.1 hn
      cases hn
      exact ⟨a, s₁, b, ⟨_, ha⟩, ⟨_, hb⟩, rfl⟩
  · rw [hstep, run_bind_ok (expandFormatForWindow_mono outside app (by omega) f winIdx s _ hn),
      run_bind_ok (expandFormatForWindow_mono outside app (by omega) g winIdx s₁ _ hk), hv]
    rfl

/-- The pane as it is in scope, and whether a loop over panes was run. -/
abbrev Scoped := ReaderT ℕ (StateM Bool)

/-- A loop over panes leaves the pane to what follows it. -/
def scoping : Effects Scoped where
  stop _ a := pure a
  target := do
    let pos ← read
    pure (some pos)
  atPane pos x := fun _ => do
    let a ← x.run pos
    set true
    pure a

/-- Whether some run of a format for a pane that returns runs a loop over panes. -/
def RunsPaneLoop (outside : Outside) (app : App) (fmt : Chars) (winIdx pos : ℕ) : Prop :=
  ∃ n, (∃ r, (expandFormatForWindow running outside app n fmt winIdx).run (some pos) = .ok r) ∧
    (((expandFormatForWindow scoping outside app n fmt winIdx).run pos).run false).2 = true

/-- Until a loop over panes is run, the pane in scope is the one that is set; afterwards none
is. -/
def scopedUntil : MonadRelation Run Scoped where
  Rel x y := (∀ v s', x.run none = .ok (v, s') → s' = none) ∧ (∀ p, ((y.run p).run true).2 = true) ∧
    ∀ p v s', x.run (some p) = .ok (v, s') →
      (s' = some p ∧ (y.run p).run false = (v, false)) ∨ (s' = none ∧ ((y.run p).run false).2 = true)
  rel_pure a := by
    refine ⟨fun v s' h => ?_, fun p => rfl, fun p v s' h => .inl ?_⟩
    · cases h
      rfl
    · cases h
      exact ⟨rfl, rfl⟩
  rel_bind {α β x y f g} hx hf := by
    have hrun : ∀ p b, ((y >>= g).run p).run b =
        ((g ((y.run p).run b).1).run p).run ((y.run p).run b).2 := fun _ _ => rfl
    refine ⟨fun v s' h => ?_, fun p => ?_, fun p v s' h => ?_⟩
    · obtain ⟨a, t, ha, hb⟩ := run_bind_eq_ok.1 h
      rw [hx.1 a t ha] at hb
      exact (hf a).1 v s' hb
    · rw [hrun, hx.2.1 p]
      exact (hf _).2.1 p
    · obtain ⟨a, t, ha, hb⟩ := run_bind_eq_ok.1 h
      rw [hrun]
      obtain ⟨rfl, hy⟩ | ⟨rfl, hy⟩ := hx.2.2 p a t ha
      · rw [hy]
        exact (hf a).2.2 p v s' hb
      · rw [hy]
        exact .inr ⟨(hf a).1 v s' hb, (hf _).2.1 p⟩

theorem stopping_scopedUntil : Stopping scopedUntil running scoping where
  stop s a := by
    refine ⟨fun v t h => ?_, fun _ => rfl, fun p v t h => ?_⟩
    · cases h
    · cases h

variable (outside app)

theorem related_scopedUntil : Related scopedUntil running scoping outside app where
  toStopping := stopping_scopedUntil
  var := by
    refine stopping_scopedUntil.expandVar outside app ⟨fun v s' h => ?_, fun p => rfl, fun p v s' h => .inl ?_⟩
    · cases h
      rfl
    · cases h
      exact ⟨rfl, rfl⟩
  atPane {α} pos {x y} h := by
    refine ⟨fun v s' hx => (running_atPane_eq_ok.1 hx).1, fun p => rfl, fun p v s' hx => .inr ?_⟩
    exact ⟨(running_atPane_eq_ok.1 hx).1, rfl⟩

theorem scopedUntil_expandFormatForWindow (n : ℕ) (fmt : Chars) (winIdx : ℕ) :
    scopedUntil.Rel (expandFormatForWindow running outside app n fmt winIdx)
      (expandFormatForWindow scoping outside app n fmt winIdx) :=
  (related_scopedUntil outside app).expandFormatForWindow n fmt winIdx

variable {outside app}

theorem ExpandsTo.none_of_none {fmt : Chars} {winIdx : ℕ} {v : Chars} {s' : Option ℕ}
    (h : ExpandsTo outside app fmt winIdx none v s') : s' = none := by
  obtain ⟨n, hn⟩ := h
  exact (scopedUntil_expandFormatForWindow outside app n fmt winIdx).1 v s' hn

/-- A format without a loop over panes leaves the pane, one with such a loop clears it. -/
theorem ExpandsTo.after {fmt : Chars} {winIdx pos : ℕ} {v : Chars} {s' : Option ℕ}
    (h : ExpandsTo outside app fmt winIdx (some pos) v s') :
    (s' = some pos ∧ ¬RunsPaneLoop outside app fmt winIdx pos) ∨
      (s' = none ∧ RunsPaneLoop outside app fmt winIdx pos) := by
  obtain ⟨n, hn⟩ := h
  obtain ⟨rfl, hy⟩ | ⟨rfl, hy⟩ :=
    (scopedUntil_expandFormatForWindow outside app n fmt winIdx).2.2 pos v s' hn
  · refine .inl ⟨rfl, fun ⟨k, ⟨r, hr⟩, hk⟩ => ?_⟩
    obtain ⟨-, hsome⟩ := ExpandsTo.unique (a := v) (b := r.1) ⟨n, hn⟩ ⟨k, hr⟩
    obtain ⟨-, hflag⟩ | ⟨hnone, -⟩ :=
      (scopedUntil_expandFormatForWindow outside app k fmt winIdx).2.2 pos r.1 r.2 hr
    · rw [hflag] at hk
      cases hk
    · rw [hnone] at hsome
      cases hsome
  · exact .inr ⟨rfl, n, ⟨_, hn⟩, hy⟩

/-- At the position stands the active pane of the window. -/
def Window.activeAt (w : Window) (pos : ℕ) : Bool := (w.target (some pos)).isActive

theorem Window.target_eq_of_activeAt {w : Window} {pos : ℕ} (h : w.activeAt pos) :
    w.target (some pos) = w.target none := by
  obtain ⟨p, hp, hid⟩ := (Option.any_eq_true _ _).1 h
  have hactive : w.activePaneId = some p.id := (of_decide_eq_true hid).symm
  have hget : w.paneIds[pos]? = some p.id := by rw [Window.paneIds, List.getElem?_map, hp]; rfl
  obtain ⟨hlt, hval⟩ := List.getElem?_eq_some_iff.1 hget
  have hfind : w.paneIds.findIdx? (· = p.id) = some pos := by
    refine List.findIdx?_eq_some_iff_getElem.2 ⟨hlt, decide_eq_true hval, fun j hj => ?_⟩
    rw [← hval, decide_eq_true_eq]
    intro heq
    have := (@List.Nodup.getElem_inj_iff _ _ w.distinct _ (hj.trans hlt) _ hlt).1 heq
    omega
  have hpos : w.activePanePos = pos := by
    rw [Window.activePanePos, hactive]
    exact congrArg (Option.getD · 0) hfind
  change Target.mk pos (w.activeAt pos) = ⟨w.activePanePos, true⟩
  rw [h, hpos]

/-- States that mean the same pane where the one at a position is active. -/
def SamePane (pos : ℕ) (s t : Option ℕ) : Prop :=
  s = t ∨ (s = some pos ∧ t = none) ∨ (s = none ∧ t = some pos)

theorem target_eq_of_samePane {w : Window} {pos : ℕ} (h : w.activeAt pos) {s t : Option ℕ}
    (hst : SamePane pos s t) : w.target s = w.target t := by
  rcases hst with rfl | ⟨rfl, rfl⟩ | ⟨rfl, rfl⟩
  · rfl
  · exact w.target_eq_of_activeAt h
  · exact (w.target_eq_of_activeAt h).symm

/-- From states that mean the same pane, the same results. -/
def samePane (pos : ℕ) : MonadRelation Run Run where
  Rel x y := ∀ s t, SamePane pos s t → ∀ v s', x.run s = .ok (v, s') →
    ∃ t', SamePane pos s' t' ∧ y.run t = .ok (v, t')
  rel_pure a s t hst v s' h := by
    cases h
    exact ⟨t, hst, rfl⟩
  rel_bind {α β x y f g} hx hf s t hst v s' h := by
    obtain ⟨a, s₁, ha, hb⟩ := run_bind_eq_ok.1 h
    obtain ⟨t₁, hst₁, hy⟩ := hx s t hst a s₁ ha
    obtain ⟨t', hst', hg⟩ := hf a s₁ t₁ hst₁ v s' hb
    exact ⟨t', hst', run_bind_eq_ok.2 ⟨a, t₁, hy, hg⟩⟩

theorem stopping_samePane (pos : ℕ) : Stopping (samePane pos) running running where
  stop s a t t' hst v s' h := by cases h

variable (outside app)

theorem related_samePane {pos : ℕ} (h : ∀ w ∈ app.windows, w.activeAt pos) :
    Related (samePane pos) running running outside app where
  toStopping := stopping_samePane pos
  var var winIdx s t hst v s' hx := by
    rw [expandVar] at hx ⊢
    cases hw : app.windows[winIdx]? with
    | none =>
      rw [hw] at hx
      cases hx
      exact ⟨t, hst, rfl⟩
    | some w =>
      rw [hw] at hx
      obtain ⟨override, s₁, hget, hvar⟩ := run_bind_eq_ok.1 hx
      cases hget
      obtain ⟨t', hst', hy⟩ := (stopping_samePane pos).windowVar outside app w winIdx (w.target s) var s t hst v s' hvar
      rw [target_eq_of_samePane (h w (List.mem_of_getElem? hw)) hst] at hy
      exact ⟨t', hst', run_bind_eq_ok.2 ⟨t, t, rfl, hy⟩⟩
  atPane {α} q {x y} hxy s t hst v s' hx := by
    obtain ⟨rfl, s₁, hs₁⟩ := running_atPane_eq_ok.1 hx
    obtain ⟨t', -, hy⟩ := hxy (some q) (some q) (.inl rfl) v s₁ hs₁
    exact ⟨none, .inl rfl, running_atPane_eq_ok.2 ⟨rfl, t', hy⟩⟩

variable {outside app}

theorem ExpandsTo.of_samePane {pos : ℕ} (h : ∀ w ∈ app.windows, w.activeAt pos) {fmt : Chars} {winIdx : ℕ}
    {s t s' : Option ℕ} {v : Chars} (hst : SamePane pos s t) (hv : ExpandsTo outside app fmt winIdx s v s') :
    ∃ t', ExpandsTo outside app fmt winIdx t v t' := by
  obtain ⟨n, hn⟩ := hv
  obtain ⟨t', -, ht'⟩ := (related_samePane outside app h).expandFormatForWindow n fmt winIdx s t hst v s' hn
  exact ⟨t', n, ht'⟩

/-- For each window, whether the pane is its active one. -/
def whichActive : Chars := "#{W:#{pane_active}}".toList

theorem windowVar_paneActive {m : Type → Type} [Monad m] (fx : Effects m) (w : Window) (winIdx : ℕ) (t : Target) :
    windowVar fx outside app w winIdx t "pane_active".toList = pure (flag t.isActive) := by
  simp [windowVar, indexText, edgeText, activeText, pureText, serverText, windowText, paneText]

theorem run_paneActive (n winIdx : ℕ) {w : Window} (hw : app.windows[winIdx]? = some w) (s : Option ℕ) :
    (expandFormatForWindow running outside app (n + 1) "#{pane_active}".toList winIdx).run s =
      .ok (flag (w.target s).isActive, s) := by
  have htokens : tokens "#{pane_active}".toList = [.expr "pane_active".toList] := rfl
  rw [expandFormatForWindow, expandText_expr _ _ _ _ _ htokens (by decide)]
  change (expandVar running outside app "pane_active".toList winIdx).run s = _
  rw [expandVar, hw]
  simp only [windowVar_paneActive]
  rfl

/-- Computations that leave the state, one after another. -/
theorem run_mapM {α β : Type} {f : α → Run β} {g : α → β} {s : Option ℕ} {as : List α}
    (h : ∀ a ∈ as, (f a).run s = .ok (g a, s)) : (as.mapM f).run s = .ok (as.map g, s) := by
  induction as with
  | nil => rfl
  | cons a as ih =>
    rw [List.mapM_cons, run_bind_ok (h a List.mem_cons_self),
      run_bind_ok (ih fun b hb => h b (List.mem_cons_of_mem a hb))]
    rfl

theorem expandsTo_whichActive (winIdx : ℕ) (s : Option ℕ) :
    ExpandsTo outside app whichActive winIdx s
      ([' '].intercalate (app.windows.map fun w => flag (w.target s).isActive)) s := by
  refine ⟨2, ?_⟩
  have hparts : ((List.range app.windows.length).mapM fun wi =>
      expandFormatForWindow running outside app 1 "#{pane_active}".toList wi).run s =
      .ok ((List.range app.windows.length).map fun wi =>
        (app.windows[wi]?).elim [] fun w => flag (w.target s).isActive, s) := by
    refine run_mapM fun wi hwi => ?_
    have hw := List.getElem?_eq_getElem (List.mem_range.1 hwi)
    rw [run_paneActive 0 wi hw, hw]
    rfl
  have hmap : ((List.range app.windows.length).map fun wi =>
      (app.windows[wi]?).elim [] fun w => flag (w.target s).isActive) =
      app.windows.map fun w => flag (w.target s).isActive := by
    refine List.ext_getElem (by simp) fun i hi hi' => ?_
    simp at hi
    simp [hi]
  have htokens : tokens whichActive = [.expr "W:#{pane_active}".toList] := rfl
  rw [expandFormatForWindow, expandText_expr _ _ _ _ _ htokens (by decide)]
  change (expandLoop running app _ 'W' "#{pane_active}".toList winIdx).run s = _
  rw [expandLoop, run_bind_ok hparts, hmap]
  rfl

theorem intercalate_flags_inj {as bs : List Bool} (hlen : as.length = bs.length)
    (h : [' '].intercalate (as.map flag) = [' '].intercalate (bs.map flag)) : as = bs := by
  have hflag : ∀ {a b : Bool} {s t : Chars}, flag a ++ s = flag b ++ t → a = b ∧ s = t := by
    intro a b s t h
    cases a <;> cases b <;> simp_all [flag]
  induction as generalizing bs with
  | nil => exact (List.length_eq_zero_iff.1 hlen.symm).symm
  | cons a as ih =>
    match as, bs, hlen with
    | [], [b], _ =>
      have := (hflag (a := a) (b := b) (s := []) (t := []) (by simpa using h)).1
      rw [this]
    | a' :: as, b :: b' :: bs, hlen =>
      simp only [List.map_cons, List.intercalate_cons_cons, List.append_assoc] at h
      obtain ⟨rfl, hrest⟩ := hflag h
      rw [@ih (b' :: bs) (Nat.succ.inj hlen) (List.append_cancel_left hrest)]

/-- What is printed for a pane, or for the active one. -/
def Prints (outside : Outside) (app : App) (fmt : Chars) (winIdx : ℕ) (pos : Option ℕ) (v : Chars) : Prop :=
  ∃ after, ExpandsTo outside app fmt winIdx pos v after

/-- A format before any other prints its own text before the other's. -/
def Composes (outside : Outside) (app : App) (f : Chars) (winIdx : ℕ) (pos : Option ℕ) : Prop :=
  ∀ g, '%' ∉ g → ¬['#', '('] <:+: g → ∀ v, Prints outside app (f ++ g) winIdx pos v ↔
    ∃ a b, Prints outside app f winIdx pos a ∧ Prints outside app g winIdx pos b ∧ v = a ++ b

/-- Where a format leaves the pane, or one that means the same, the next is for that pane. -/
theorem expandsTo_after_iff {f : Chars} {winIdx : ℕ} {pos : Option ℕ}
    (h : ∀ p ∈ pos, ¬RunsPaneLoop outside app f winIdx p ∨ ∀ w ∈ app.windows, w.activeAt p) {a : Chars}
    {s₁ : Option ℕ} (hf : ExpandsTo outside app f winIdx pos a s₁) (g b : Chars) :
    (∃ s', ExpandsTo outside app g winIdx s₁ b s') ↔ ∃ s', ExpandsTo outside app g winIdx pos b s' := by
  cases pos with
  | none => rw [hf.none_of_none]
  | some p =>
    obtain ⟨rfl, -⟩ | ⟨rfl, hloop⟩ := hf.after
    · exact Iff.rfl
    · have hactive := (h p rfl).resolve_left (not_not_intro hloop)
      exact ⟨fun ⟨_, hg⟩ => hg.of_samePane hactive (.inr (.inr ⟨rfl, rfl⟩)),
        fun ⟨_, hg⟩ => hg.of_samePane hactive (.inr (.inl ⟨rfl, rfl⟩))⟩

/-- A format composes if the text is for the active pane, if the format runs no loop over
panes, or if the pane is the active one of every window. -/
theorem composes_iff (outside : Outside) (app : App) {f : Chars} (h : Whole f) (hf : '%' ∉ f) (winIdx : ℕ)
    (pos : Option ℕ) :
    Composes outside app f winIdx pos ↔
      ∀ p ∈ pos, ¬RunsPaneLoop outside app f winIdx p ∨ ∀ w ∈ app.windows, w.activeAt p := by
  refine ⟨fun hcomp p hp => ?_, fun hcond g hg _ v => ⟨?_, ?_⟩⟩
  · cases hp
    by_cases hloop : RunsPaneLoop outside app f winIdx p
    · refine .inr fun w hw => ?_
      obtain ⟨n, ⟨r, hr⟩, -⟩ := id hloop
      have hfa : ExpandsTo outside app f winIdx (some p) r.1 none := by
        obtain ⟨-, hno⟩ | ⟨hnone, -⟩ := @ExpandsTo.after _ _ _ _ _ r.1 r.2 ⟨n, hr⟩
        · exact absurd hloop hno
        · rw [← hnone]
          exact ⟨n, hr⟩
      have htime : '%' ∉ whichActive := by decide
      obtain ⟨a, b, ⟨_, ha⟩, ⟨_, hb⟩, hab⟩ := (hcomp whichActive htime (by decide) _).1
        ⟨_, (expandsTo_append_iff h hf htime).2 ⟨r.1, none, _, hfa, expandsTo_whichActive winIdx none, rfl⟩⟩
      obtain ⟨rfl, -⟩ := hfa.unique ha
      obtain ⟨rfl, -⟩ := (expandsTo_whichActive winIdx (some p)).unique hb
      -- the texts of `g` for the active pane and for the pane are the same
      have hflags := @intercalate_flags_inj (app.windows.map fun w => (w.target none).isActive)
        (app.windows.map fun w => (w.target (some p)).isActive) (by simp)
        (by simpa [Function.comp_def] using List.append_cancel_left hab)
      have hw' := List.map_inj_left.1 hflags w hw
      exact hw'.symm
    · exact .inl hloop
  · rintro ⟨s', hv⟩
    obtain ⟨a, s₁, b, ha, hb, rfl⟩ := (expandsTo_append_iff h hf hg).1 hv
    exact ⟨a, b, ⟨s₁, ha⟩, (expandsTo_after_iff hcond ha g b).1 ⟨s', hb⟩, rfl⟩
  · rintro ⟨a, b, ⟨s₁, ha⟩, hb, rfl⟩
    obtain ⟨s', hb'⟩ := (expandsTo_after_iff hcond ha g b).2 hb
    exact ⟨s', (expandsTo_append_iff h hf hg).2 ⟨a, s₁, b, ha, hb', rfl⟩⟩

/-- A loop over panes makes the rest of a line for the first pane about the active one. -/
theorem loop_does_not_compose :
    ¬∀ v, Prints .bare (.sample ['w'] fun _ => none) ("#{P:x}".toList ++ "#{pane_index}".toList) 0 (some 0) v ↔
      ∃ a b, Prints .bare (.sample ['w'] fun _ => none) "#{P:x}".toList 0 (some 0) a ∧
        Prints .bare (.sample ['w'] fun _ => none) "#{pane_index}".toList 0 (some 0) b ∧ v = a ++ b := by
  intro hall
  have hboth : ExpandsTo .bare (.sample ['w'] fun _ => none) ("#{P:x}".toList ++ "#{pane_index}".toList) 0 (some 0)
      "x x1".toList none := ⟨2, by decide⟩
  have hloop : ExpandsTo .bare (.sample ['w'] fun _ => none) "#{P:x}".toList 0 (some 0) "x x".toList none :=
    ⟨2, by decide⟩
  have hindex : ExpandsTo .bare (.sample ['w'] fun _ => none) "#{pane_index}".toList 0 (some 0) ['0'] (some 0) :=
    ⟨1, by decide⟩
  obtain ⟨a, b, ⟨_, ha⟩, ⟨_, hb⟩, hab⟩ := (hall _).1 ⟨_, hboth⟩
  obtain ⟨rfl, -⟩ := hloop.unique ha
  obtain ⟨rfl, -⟩ := hindex.unique hb
  exact absurd hab (by decide)

/-- For the active pane a loop over panes does no harm. -/
theorem composes_active :
    Composes .bare (.sample ['w'] fun _ => none) "#{P:x}".toList 0 (some 1) :=
  (composes_iff .bare (.sample ['w'] fun _ => none) ⟨by decide, by decide, by decide⟩ (by decide) 0 (some 1)).2
    fun p hp => by
      cases hp
      exact .inr (by decide)

end Winsmux.Format
