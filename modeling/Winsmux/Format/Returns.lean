import Winsmux.Format.Total

/-!
# An expansion returns where nothing in the format stops it

The run that writes down the stops is compared with the plain reading, one function of the
engine after the other: both compute the same, and nothing is written down exactly from the
positions at which the format is sound.
-/
namespace Winsmux.Format
open CharText PathTree Layout

/-- A run that computes what a reading computes, and writes nothing down exactly from the
positions of a predicate. -/
def Judged {α : Type} (x : Logged α) (y : Reading α) (p : Option ℕ → Prop) : Prop :=
  ∀ s log, ∃ more, x.run (s, log) = ((y.run s).1, ((y.run s).2, log ++ more)) ∧ (more = [] ↔ p s)

namespace Judged

variable {α β : Type} {x : Logged α} {y : Reading α} {f : α → Logged β} {g : α → Reading β}
  {p p' r : Option ℕ → Prop} {q : α → Option ℕ → Prop}

theorem pure (a : α) (hp : ∀ s, p s) : Judged (Pure.pure a) (Pure.pure a) p := fun s log =>
  ⟨[], by rw [List.append_nil]; rfl, iff_of_true rfl (hp s)⟩

theorem stop (e : Stop) (a : α) (hp : ∀ s, ¬p s) : Judged (logging.stop e a) (plain.stop e a) p := fun s _ =>
  ⟨[e], rfl, iff_of_false (List.cons_ne_nil e []) (hp s)⟩

theorem target : Judged logging.target plain.target fun _ => True := fun _ log =>
  ⟨[], by rw [List.append_nil]; rfl, iff_of_true rfl trivial⟩

theorem congr (h : Judged x y p) (hp : ∀ s, p' s ↔ p s) : Judged x y p' := fun s log => by
  obtain ⟨more, hx, hmore⟩ := h s log
  exact ⟨more, hx, hmore.trans (hp s).symm⟩

theorem bind (h : Judged x y p) (hf : ∀ a, Judged (f a) (g a) (q a))
    (hr : ∀ s, r s ↔ p s ∧ After y q s) : Judged (x >>= f) (y >>= g) r := fun s log => by
  obtain ⟨first, hx, hfirst⟩ := h s log
  obtain ⟨second, hy, hsecond⟩ := hf (y.run s).1 (y.run s).2 (log ++ first)
  refine ⟨first ++ second, ?_, ?_⟩
  · rw [StateT.run_bind, hx, ← List.append_assoc]
    exact hy
  · rw [List.append_eq_nil_iff, hfirst, hsecond, hr, After]

/-- Where nothing after it can stop. -/
theorem bind_pure (h : Judged x y p) (f : α → β) :
    Judged (x >>= fun a => Pure.pure (f a)) (y >>= fun a => Pure.pure (f a)) p :=
  h.bind (fun a => pure (p := fun _ => True) (f a) fun _ => trivial) fun _ => ⟨fun h => ⟨h, trivial⟩, And.left⟩

theorem map (h : Judged x y p) (f : α → β) : Judged (f <$> x) (f <$> y) p := by
  rw [← bind_pure_comp, ← bind_pure_comp]
  exact h.bind_pure f

/-- Where the first part cannot stop. -/
theorem bind_right (h : Judged x y fun _ => True) (hf : ∀ a, Judged (f a) (g a) (q a)) :
    Judged (x >>= f) (y >>= g) (After y q) :=
  h.bind hf fun _ => ⟨fun h => ⟨trivial, h⟩, And.right⟩

theorem ite {c : Prop} [Decidable c] {x' : Logged α} {y' : Reading α} (h : c → Judged x y p)
    (h' : ¬c → Judged x' y' p) : Judged (if c then x else x') (if c then y else y') p := by
  split
  · exact h ‹c›
  · exact h' ‹¬c›

theorem mapM : ∀ {as : List α}, (∀ a ∈ as, Judged (f a) (g a) (q a)) → Judged (as.mapM f) (as.mapM g) (Each g q as)
  | [], _ => by
    rw [List.mapM_nil, List.mapM_nil]
    exact pure [] fun _ => trivial
  | a :: as, h => by
    have hrest := mapM fun b hb => h b (List.mem_cons_of_mem a hb)
    rw [List.mapM_cons, List.mapM_cons]
    exact (h a List.mem_cons_self).bind (fun b => hrest.bind_pure fun bs => b :: bs) fun _ => Iff.rfl

theorem atPane (pos : ℕ) (h : Judged x y p) :
    Judged (logging.atPane pos x) (plain.atPane pos y) fun _ => p (some pos) := fun _ log => by
  obtain ⟨more, hx, hmore⟩ := h (some pos) log
  refine ⟨more, ?_, hmore⟩
  rw [logging_atPane, hx]
  rfl

end Judged

/-- What does not depend on the position holds of all or not. -/
theorem each_const {α β : Type} (x : α → Reading β) (p : α → Prop) {as : List α} {s : Option ℕ} :
    Each x (fun a _ => p a) as s ↔ ∀ a ∈ as, p a := by
  induction as generalizing s with
  | nil => simp [Each]
  | cons a as ih => simp [Each, After, ih]

theorem judged_afterFirstByte (s : Chars) :
    Judged (afterFirstByte logging s) (afterFirstByte plain s) fun _ => ∀ c ∈ s.head?, OneByte c := by
  cases s with
  | nil => exact .pure [] fun _ c hc => by cases hc
  | cons c s =>
    have hone : (∀ d ∈ (c :: s).head?, OneByte d) ↔ c.toNat < 128 := by simp [OneByte]
    exact .ite (fun h => .pure s fun _ => hone.2 h) fun h => .stop .slice s fun _ hs => h (hone.1 hs)

theorem read_afterFirstByte (c : Char) (s : Chars) (t : Option ℕ) :
    (afterFirstByte plain (c :: s)).run t = (s, t) := by
  rw [afterFirstByte]
  split <;> rfl

theorem judged_parseSingleModifier (spec : Chars) :
    Judged (parseSingleModifier logging spec) (parseSingleModifier plain spec) fun _ => SegmentSound spec := by
  cases spec with
  | nil => exact .pure none fun _ => trivial
  | cons first rest =>
    refine (judged_afterFirstByte (first :: rest)).bind (q := fun rest _ => first = 's' ∨ first = 'e' →
      ∀ sep ∈ rest.head?, OneByte sep) (fun rest => ?_) fun s => ?_
    · split <;> try exact .pure _ (by grind)
      · cases rest with
        | nil => exact .pure _ (by simp)
        | cons sep inner => exact .ite (fun _ => .pure _ (by simp)) fun _ => .pure _ (by simp)
      · cases rest with
        | nil => exact .pure _ (by simp)
        | cons sep inner => exact ((judged_afterFirstByte (sep :: inner)).bind_pure _).congr (by simp)
      · cases rest with
        | nil => exact .pure _ (by simp)
        | cons sep inner => exact ((judged_afterFirstByte (sep :: inner)).bind_pure _).congr (by simp)
    · rw [After, read_afterFirstByte]
      simp [SegmentSound]

theorem judged_parseModifierChain (spec : Chars) :
    Judged (parseModifierChain logging spec) (parseModifierChain plain spec) fun _ => ChainSound spec := by
  refine ((Judged.mapM fun segment _ => judged_parseSingleModifier segment).bind_pure _).congr fun s => ?_
  exact (each_const _ _).symm

variable (outside : Outside) (app : App)

theorem judged_narrow (bits n : ℕ) :
    Judged (narrow logging outside bits n) (narrow plain outside bits n) fun _ => Fits outside bits n :=
  .ite (fun h => .pure n fun _ _ => h) fun h =>
    .ite (fun hc => .stop _ _ fun _ hn => h (hn hc)) fun hc => .pure _ fun _ hc' => absurd hc' hc

theorem judged_checked {α : Type} (fits : Bool) (value : α) :
    Judged (checked logging outside fits value) (checked plain outside fits value)
      fun _ => outside.overflowChecks → fits :=
  .ite (fun h => .stop _ _ fun _ hn => by simp [hn h.1] at h) fun h => .pure _ fun _ hc => by
    cases fits with
    | true => rfl
    | false => exact absurd ⟨hc, rfl⟩ h

theorem judged_edge (w : Window) (t : Target) (default : Chars) {text : Rect → Logged Chars}
    {text' : Rect → Reading Chars} {p : Rect → Prop} (ht : ∀ r, Judged (text r) (text' r) fun _ => p r) :
    Judged (edge logging outside app w t default text) (edge plain outside app w t default text')
      (EdgeSound outside app w t p) := by
  rw [edge, edge]
  cases hpane : w.pane t with
  | none => exact .pure default fun _ pane h => by simp [hpane] at h
  | some pane =>
    refine (judged_checked outside (w.fits outside app) _).bind
      (q := fun rects _ => ∀ r ∈ w.rectOf pane.id rects, p r) (fun rects => ?_) fun s => ?_
    · cases hrect : w.rectOf pane.id rects with
      | none => exact .pure default fun _ r h => by cases h
      | some r => exact (ht r).congr fun s => by simp
    · simp only [EdgeSound, hpane, Option.mem_some_iff, forall_eq']
      rfl

/-- The sum of two numbers is needed for what comes after it. -/
theorem judged_sum (n : ℕ) (text : ℕ → Chars) :
    Judged (do let k ← narrow logging outside 16 n; pure (text k))
      (do let k ← narrow plain outside 16 n; pure (text k)) fun _ => Fits outside 16 n :=
  (judged_narrow outside 16 n).bind_pure text

theorem judged_twoSums (n k : ℕ) (text : ℕ → ℕ → Chars) :
    Judged (do let a ← narrow logging outside 16 n; let b ← narrow logging outside 16 k; pure (text a b))
      (do let a ← narrow plain outside 16 n; let b ← narrow plain outside 16 k; pure (text a b))
      fun _ => Fits outside 16 n ∧ Fits outside 16 k :=
  (judged_narrow outside 16 n).bind (fun a => judged_sum outside k (text a)) fun _ => Iff.rfl

theorem judged_activePane (t : PathTree Split Pane) (path : List ℕ) :
    Judged (activePane logging t path) (activePane plain t path) fun _ => Leads t path := by
  induction t using PathTree.tree_induction generalizing path with
  | leaf p => exact .pure (some p) fun _ => by rw [Leads]; trivial
  | split a children ih =>
    have hin : ∀ (cs : List (PathTree Split Pane)) (i : ℕ) (path : List ℕ), (∀ c ∈ cs, ∀ path,
        Judged (activePane logging c path) (activePane plain c path) fun _ => Leads c path) →
        Judged (activePaneIn logging cs i path) (activePaneIn plain cs i path) fun _ => LeadsIn cs i path := by
      intro cs
      induction cs with
      | nil => exact fun _ _ _ => .stop _ _ fun _ h => by simp [LeadsIn] at h
      | cons c cs ihcs =>
        intro i path hall
        cases i with
        | zero => exact (hall c List.mem_cons_self path).congr fun _ => by rw [LeadsIn]
        | succ i =>
          exact (ihcs i path fun d hd => hall d (List.mem_cons_of_mem c hd)).congr fun _ => by rw [LeadsIn]
    cases path with
    | nil => exact .pure none fun _ => by rw [Leads]; trivial
    | cons i path => exact (hin children _ path ih).congr fun _ => by rw [Leads]

theorem judged_aboutActive (w : Window) (default : Chars) {text : Pane → Logged Chars}
    {text' : Pane → Reading Chars} {q : Prop} (ht : ∀ p, Judged (text p) (text' p) fun _ => q) :
    Judged (aboutActive logging w default text) (aboutActive plain w default text') fun s =>
      Leads w.root w.activePath ∧ After (activePane plain w.root w.activePath) (fun p _ => p.isSome → q) s :=
  (judged_activePane w.root w.activePath).bind (fun p => by
    cases p with
    | none => exact .pure default fun _ h => by cases h
    | some p => exact (ht p).congr fun _ => by simp) fun _ => Iff.rfl

theorem judged_aboutActive_pure (w : Window) (default : Chars) (text : Pane → Chars) :
    Judged (aboutActive logging w default fun p => pure (text p))
      (aboutActive plain w default fun p => pure (text p)) fun _ => Leads w.root w.activePath :=
  (judged_aboutActive w default (q := True) fun p => .pure _ fun _ => trivial).congr fun s => by simp [After]

theorem judged_paneLast (w : Window) (t : Target) :
    Judged (paneLast logging app w t) (paneLast plain app w t) fun _ =>
      (w.pane t).isSome → app.lastPanePath ≠ [] → Leads w.root app.lastPanePath := by
  rw [paneLast, paneLast]
  cases w.pane t with
  | none => exact .pure _ fun _ h => by cases h
  | some p =>
    refine .ite (fun h => .pure _ fun _ _ hn => absurd h hn) fun h => ?_
    refine (judged_activePane w.root app.lastPanePath).bind (q := fun _ _ => True) (fun last => ?_) fun s => ?_
    · cases last with
      | none => exact .pure _ fun _ => trivial
      | some last => exact .pure _ fun _ => trivial
    · simp [h, After]

theorem judged_windowVar (w : Window) (winIdx : ℕ) (t : Target) (var : Chars) :
    Judged (windowVar logging outside app w winIdx t var) (windowVar plain outside app w winIdx t var)
      (WindowVarSound outside app w winIdx t var) := by
  unfold WindowVarSound
  split <;> rename_i h
  all_goals simp only [windowVar, indexText, edgeText, activeText, h, Option.some_or, Option.none_or,
    Option.getD_some]
  · exact (judged_narrow outside 64 _).map _
  · exact (judged_narrow outside 64 _).map _
  · exact (judged_narrow outside 16 _).map _
  · exact judged_paneLast app w t
  · exact judged_checked outside _ _
  · exact judged_checked outside _ _
  · exact judged_edge outside app w t _ fun r => .pure _ fun _ => trivial
  · exact judged_edge outside app w t _ fun r => .pure _ fun _ => trivial
  · exact judged_edge outside app w t _ fun r => .pure _ fun _ => trivial
  · exact judged_edge outside app w t _ fun r => .pure _ fun _ => trivial
  · exact judged_edge outside app w t _ fun r => judged_sum outside _ _
  · exact judged_edge outside app w t _ fun r => judged_sum outside _ _
  · exact judged_edge outside app w t _ fun r => judged_twoSums outside _ _ _
  · exact judged_edge outside app w t _ fun r => judged_twoSums outside _ _ _
  · exact judged_aboutActive w _ fun p => (judged_checked outside _ _).bind_pure _
  · exact judged_aboutActive w _ fun p => (judged_checked outside _ _).bind_pure _
  · cases app.copyPos with
    | none => exact .pure _ fun _ h => by cases h
    | some pos => exact (judged_aboutActive_pure w _ _).congr fun _ => by simp
  · cases app.copyPos with
    | none => exact .pure _ fun _ h => by cases h
    | some pos => exact (judged_aboutActive_pure w _ _).congr fun _ => by simp
  · exact judged_aboutActive_pure w _ _
  · exact judged_aboutActive_pure w _ _
  · exact .pure _ fun _ => trivial

theorem judged_expandVar (var : Chars) (winIdx : ℕ) :
    Judged (expandVar logging outside app var winIdx) (expandVar plain outside app var winIdx)
      (VarSound outside app var winIdx) := by
  unfold VarSound
  rw [expandVar, expandVar]
  cases app.windows[winIdx]? with
  | none => exact .pure _ fun _ w hw => by cases hw
  | some w =>
    refine (Judged.target.bind_right fun override =>
      judged_windowVar outside app w winIdx (w.target override) var).congr fun s => ?_
    simp only [Option.mem_some_iff, forall_eq']
    rfl

theorem judged_expandShort (hasStrftime : Bool) (winIdx : ℕ) (c : Char) :
    Judged (expandShort logging outside app hasStrftime winIdx c) (expandShort plain outside app hasStrftime winIdx c)
      fun _ => ShortSound outside app winIdx c := by
  unfold expandShort
  split <;> try exact .pure _ fun _ => trivial
  · exact .ite (fun h => ((judged_narrow outside 64 _).map _).congr fun _ => forall_prop_of_true h) fun h =>
      .pure _ fun _ h' => absurd h' h
  · simp only [ShortSound]
    cases app.windows[winIdx]? with
    | none => exact .pure _ fun _ w hw => by cases hw
    | some w => exact ((judged_narrow outside 64 _).map _).congr fun _ => by simp
  · exact .pure _ fun _ => by grind [ShortSound]

theorem judged_narrowSigned (z : ℤ) :
    Judged (narrowSigned logging outside z) (narrowSigned plain outside z)
      fun _ => outside.overflowChecks → -2 ^ 63 ≤ z ∧ z < 2 ^ 63 :=
  .ite (fun h => .pure z fun _ _ => h) fun h =>
    .ite (fun hc => .stop _ _ fun _ hz => h (hz hc)) fun hc => .pure _ fun _ hc' => absurd hc' hc

theorem judged_divided (quotient : ℤ → ℤ → ℤ) (a b : ℤ) :
    Judged (divided logging quotient a b) (divided plain quotient a b) fun _ => ¬(a = -2 ^ 63 ∧ b = -1) :=
  .ite (fun h => .pure 0 fun _ => by omega) fun _ =>
    .ite (fun hc => .stop _ _ fun _ hn => hn hc) fun hc => .pure _ fun _ => hc

theorem judged_intMath (op : Char) (a b : ℤ) :
    Judged (intMath logging outside op a b) (intMath plain outside op a b) fun _ => IntMathSound outside op a b := by
  unfold intMath
  split
  · exact judged_narrowSigned outside _
  · exact judged_narrowSigned outside _
  · exact judged_narrowSigned outside _
  · exact judged_divided _ a b
  · exact judged_divided _ a b
  · exact .pure 0 fun _ => by grind [IntMathSound]

theorem judged_precision (decimals : ℕ) :
    Judged (precision logging outside decimals) (precision plain outside decimals)
      fun _ => decimals ≤ outside.precisionLimit :=
  .ite (fun h => .pure decimals fun _ => h) fun h => .stop _ _ fun _ => h

theorem judged_mathExpr (op : Char) (floating : Bool) (decimals : ℕ) (value : Chars) :
    Judged (mathExpr logging outside op floating decimals value) (mathExpr plain outside op floating decimals value)
      fun _ => MathSound outside op floating decimals value := by
  unfold mathExpr
  split
  · rename_i hparts
    simp only [MathSound, hparts]
    refine .ite (fun h => ((judged_precision outside decimals).bind_pure _).congr fun _ => by simp [h]) fun h => ?_
    refine (judged_intMath outside op _ _).bind (q := fun _ _ => decimals > 0 → decimals ≤ outside.precisionLimit)
      (fun r => ?_) fun s => by simp [h, After]
    exact .ite (fun hd => ((judged_precision outside decimals).bind_pure _).congr fun _ => by simp [hd])
      fun hd => .pure _ fun _ h => absurd h hd
  · exact .pure _ fun _ => by grind [MathSound]

theorem judged_trimWithMarker (n : ℤ) (marker value : Chars) :
    Judged (trimWithMarker logging outside n marker value) (trimWithMarker plain outside n marker value)
      fun _ => n = -2 ^ 31 → !outside.overflowChecks := by
  have hnegated : Judged (negated logging outside n) (negated plain outside n)
      fun _ => n = -2 ^ 31 → !outside.overflowChecks :=
    .ite (fun h => .ite (fun hc => .stop _ _ fun _ hn => by simp [hc] at hn; exact hn h) fun hc =>
      .pure _ fun _ _ => by simpa using hc) fun h => .pure _ fun _ h' => absurd h' h
  exact .ite (fun h => .pure value fun _ => by omega) fun _ => .ite (fun h => .pure _ fun _ => by omega)
    fun _ => hnegated.bind_pure _

theorem judged_searchContent (regex caseInsensitive : Bool) (value : Chars) (winIdx : ℕ) :
    Judged (searchContent logging outside app regex caseInsensitive value winIdx)
      (searchContent plain outside app regex caseInsensitive value winIdx)
      fun _ => value ≠ [] → ∀ w ∈ app.windows[winIdx]?, Leads w.root w.activePath := by
  refine .ite (fun h => .pure _ fun _ hn => absurd h hn) fun h => ?_
  cases app.windows[winIdx]? with
  | none => exact .pure _ fun _ _ w hw => by cases hw
  | some w => exact (judged_aboutActive_pure w _ _).congr fun _ => by simp [h]

section again
variable {again : Chars → ℕ → Logged Chars} {again' : Calls}
  (hagain : ∀ s w, Judged (again s w) (again'.read s w) (again'.Sound s w))
include hagain

theorem judged_applyModifier (modifier : Modifier) (value : Chars) (winIdx : ℕ) :
    Judged (applyModifier logging outside app again modifier value winIdx)
      (applyModifier plain outside app again'.read modifier value winIdx)
      (ModifierSound outside app again' modifier value winIdx) := by
  cases modifier with
  | expand => exact hagain value winIdx
  | expandTime => exact (hagain value winIdx).bind_pure _
  | trim n => exact judged_trimWithMarker outside n _ value
  | trimWithMarker n marker => exact judged_trimWithMarker outside n marker value
  | mathExpr op floating decimals => exact judged_mathExpr outside op floating decimals value
  | searchContent regex caseInsensitive => exact judged_searchContent outside app regex caseInsensitive value winIdx
  | time | basename | dirname | quote | substitute | pad | «match» | width => exact .pure _ fun _ => trivial

theorem judged_applyModifiers (modifiers : List Modifier) (value : Chars) (winIdx : ℕ) :
    Judged (applyModifiers logging outside app again modifiers value winIdx)
      (applyModifiers plain outside app again'.read modifiers value winIdx)
      (ModifiersSound outside app again' modifiers value winIdx) := by
  induction modifiers generalizing value with
  | nil => exact .pure value fun _ => trivial
  | cons modifier modifiers ih =>
    exact (judged_applyModifier outside app hagain modifier value winIdx).bind (fun value => ih value) fun _ => Iff.rfl

end again

section nested
variable {nested again : Chars → ℕ → Logged Chars} {nested' again' : Calls} {k : ℕ}
  (hnested : ∀ s w, s.length ≤ k → Judged (nested s w) (nested'.read s w) (nested'.Sound s w))
include hnested

theorem judged_expandVarOrFormat {target : Chars} (hk : target.length ≤ k) (winIdx : ℕ) :
    Judged (expandVarOrFormat logging outside app nested target winIdx)
      (expandVarOrFormat plain outside app nested'.read target winIdx)
      (ValueSound outside app nested' target winIdx) := by
  refine .ite (fun h => (hnested target winIdx hk).congr fun _ => by simp [ValueSound, h]) fun h => ?_
  refine .ite (fun hf => .pure target fun _ => ?_) fun hf =>
    ((judged_expandVar outside app target winIdx).bind_pure _).congr fun _ => ?_
  · simp only [ValueSound, h]
    grind
  · simp only [ValueSound, h]
    grind

theorem judged_expandTarget (modifiers : List Modifier) {target : Chars} (hk : target.length ≤ k) (winIdx : ℕ) :
    Judged (expandTarget logging outside app nested modifiers target winIdx)
      (expandTarget plain outside app nested'.read modifiers target winIdx)
      (TargetSound outside app nested' modifiers target winIdx) := by
  refine .ite (fun h => ?_) fun h =>
    (judged_expandVarOrFormat outside app hnested hk winIdx).congr fun _ => by simp [TargetSound, h]
  refine ((Judged.mapM fun part hpart => ?_).bind_pure _).congr fun _ => by simp [TargetSound, h]; rfl
  exact judged_expandVarOrFormat outside app hnested ((length_le_of_mem_splitAtDepth0 hpart).trans hk) winIdx

theorem judged_tryExpandModifierChain (hagain : ∀ s w, Judged (again s w) (again'.read s w) (again'.Sound s w))
    {expr : Chars} (hk : expr.length ≤ k) (winIdx : ℕ) :
    Judged (tryExpandModifierChain logging outside app nested again expr winIdx)
      (tryExpandModifierChain plain outside app nested'.read again'.read expr winIdx)
      (ModifierChainSound outside app nested' again' expr winIdx) := by
  unfold ModifierChainSound
  refine .ite (fun h => .pure none fun _ => by simp only [h, true_or, if_true]) fun hstart => ?_
  cases hcolon : findModifierColon expr with
  | none => exact .pure none fun _ => by simp
  | some r =>
    have htarget := length_modifierColonFrom (a := r.1) (b := r.2) hcolon
    refine .ite (fun h => .pure _ fun _ => by simp [h]) fun hl => ?_
    simp only [hstart, hl]
    refine (judged_parseModifierChain r.1).bind (fun modifiers => ?_) fun _ => Iff.rfl
    refine .ite (fun h => .pure none fun _ hne => ?_) fun h => ?_
    · exact absurd (List.isEmpty_iff.1 h) hne
    · refine ((judged_expandTarget outside app hnested modifiers (by omega) winIdx).bind (fun value =>
        (judged_applyModifiers outside app hagain modifiers value winIdx).bind_pure some) fun _ => Iff.rfl).congr
        fun s => forall_prop_of_true fun hnil => h (List.isEmpty_iff.2 hnil)

theorem judged_expandChain (hagain : ∀ s w, Judged (again s w) (again'.read s w) (again'.Sound s w))
    {expr : Chars} (hk : expr.length ≤ k) (winIdx : ℕ) :
    Judged (expandChain logging outside app nested again expr winIdx)
      (expandChain plain outside app nested'.read again'.read expr winIdx)
      (ExpandChainSound outside app nested' again' expr winIdx) := by
  refine (judged_tryExpandModifierChain outside app hnested hagain hk winIdx).bind (fun result => ?_) fun _ => Iff.rfl
  cases result with
  | none => exact (judged_expandVar outside app expr winIdx).congr fun _ => forall_prop_of_true rfl
  | some result => exact .pure result fun _ h => by cases h

theorem judged_compareParts (op : CompareOp) {parts : List Chars} (hk : ∀ part ∈ parts, part.length ≤ k)
    (winIdx : ℕ) :
    Judged (compareParts logging outside app nested op parts winIdx)
      (compareParts plain outside app nested'.read op parts winIdx)
      (CompareSound outside app nested' parts winIdx) := by
  cases parts with
  | nil => exact .pure _ fun _ => trivial
  | cons lhs rest =>
    cases rest with
    | nil => exact .pure _ fun _ => trivial
    | cons rhs rest =>
      exact (judged_expandVarOrFormat outside app hnested (hk lhs (by simp)) winIdx).bind (fun a =>
        (judged_expandVarOrFormat outside app hnested (hk rhs (by simp)) winIdx).bind_pure _) fun _ => Iff.rfl

theorem judged_expandBoolean (decides : Bool) {parts : List Chars} (hk : ∀ part ∈ parts, part.length ≤ k)
    (winIdx : ℕ) :
    Judged (expandBoolean logging outside app nested decides parts winIdx)
      (expandBoolean plain outside app nested'.read decides parts winIdx)
      (BooleanSound outside app nested' decides parts winIdx) := by
  induction parts with
  | nil => exact .pure _ fun _ => trivial
  | cons part parts ih =>
    refine (judged_expandVarOrFormat outside app hnested (hk part List.mem_cons_self) winIdx).bind (fun val =>
      .ite (fun h => .pure _ fun _ hn => absurd h hn) fun h => ?_) fun _ => Iff.rfl
    exact (ih fun p hp => hk p (List.mem_cons_of_mem part hp)).congr fun _ => forall_prop_of_true h

theorem judged_expandCondition {cond : Chars} (hk : cond.length + 3 ≤ k) (winIdx : ℕ) :
    Judged (expandCondition nested cond winIdx) (expandCondition nested'.read cond winIdx)
      (ConditionSound nested' cond winIdx) := by
  unfold ConditionSound
  rw [expandCondition, expandCondition]
  cases hcmp : findComparisonInCond cond with
  | none =>
    refine (hnested _ winIdx ?_).bind_pure _
    split
    · omega
    · simp only [List.length_cons, List.length_append, List.length_nil]
      omega
  | some r =>
    have hsides := @length_findComparisonInCond _ r.1 r.2.2 r.2.1 hcmp
    exact (hnested r.1 winIdx (by omega)).bind (fun a => (hnested r.2.2 winIdx (by omega)).bind_pure _)
      fun _ => Iff.rfl

theorem judged_expandConditional {body : Chars} (hk : body.length + 3 ≤ k) (winIdx : ℕ) :
    Judged (expandConditional nested body winIdx) (expandConditional nested'.read body winIdx)
      (ConditionalSound nested' body winIdx) := by
  have hparts := length_splitConditional body
  refine (judged_expandCondition hnested (by omega) winIdx).bind (fun isTrue => hnested _ winIdx ?_) fun _ => Iff.rfl
  split <;> omega

theorem judged_expandLoop (kind : Char) {fmt : Chars} (hk : fmt.length ≤ k) (winIdx : ℕ) :
    Judged (expandLoop logging app nested kind fmt winIdx) (expandLoop plain app nested'.read kind fmt winIdx)
      (LoopSound app nested' kind fmt winIdx) := by
  unfold expandLoop
  split
  · exact (Judged.mapM fun wi _ => hnested fmt wi hk).bind_pure _
  · refine ((Judged.mapM fun pos _ => (hnested fmt winIdx hk).atPane pos).bind_pure _).congr fun s => ?_
    rw [each_const]
    simp [LoopSound]
  · exact (hnested fmt winIdx hk).congr fun _ => by grind [LoopSound]

theorem judged_expandExpression (hagain : ∀ s w, Judged (again s w) (again'.read s w) (again'.Sound s w))
    {expr : Chars} (hk : expr.length + 2 ≤ k) (winIdx : ℕ) :
    Judged (expandExpression logging outside app nested again expr winIdx)
      (expandExpression plain outside app nested'.read again'.read expr winIdx)
      (ExpressionSound outside app nested' again' expr winIdx) := by
  cases expr with
  | nil => exact .pure [] fun _ => trivial
  | cons first body =>
    have hparts : ∀ {rest part : Chars}, rest.length ≤ (first :: body).length →
        part ∈ splitAtDepth0 rest ',' → part.length ≤ k := fun hrest hpart => by
      have := length_le_of_mem_splitAtDepth0 hpart
      omega
    unfold ExpressionSound
    rw [expandExpression, expandExpression]
    refine .ite (fun h => ?_) fun h => ?_
    · simp only [h, if_true]
      exact judged_expandConditional hnested (by rw [List.length_cons] at hk; omega) winIdx
    simp only [h, if_false]
    cases hcmp : comparisonOp (first :: body) with
    | some r =>
      obtain ⟨op, -, hop⟩ := List.exists_of_findSome?_eq_some hcmp
      obtain ⟨rest, hrest, rfl⟩ := Option.map_eq_some_iff.1 hop
      exact judged_compareParts outside app hnested op (fun _ => hparts (length_stripPrefix hrest)) winIdx
    | none =>
      cases hor : stripPrefix ['|', '|', ':'] (first :: body) with
      | some rest =>
        exact judged_expandBoolean outside app hnested true (fun _ => hparts (length_stripPrefix hor)) winIdx
      | none =>
        cases hand : stripPrefix ['&', '&', ':'] (first :: body) with
        | some rest =>
          exact judged_expandBoolean outside app hnested false (fun _ => hparts (length_stripPrefix hand)) winIdx
        | none =>
          cases hloop : loopOf (first :: body) with
          | some r =>
            have := @length_loopOf _ r.2 r.1 hloop
            exact judged_expandLoop app hnested r.1 (by omega) winIdx
          | none => exact judged_expandChain outside app hnested hagain (by omega) winIdx

end nested

/-- One call, over the calls that it makes in turn. -/
theorem judged_expandText {nested again : Chars → ℕ → Logged Chars} {nested' again' : Calls} {fmt : Chars}
    (hnested : ∀ s w, s.length < fmt.length → Judged (nested s w) (nested'.read s w) (nested'.Sound s w))
    (hagain : ∀ s w, Judged (again s w) (again'.read s w) (again'.Sound s w)) (winIdx : ℕ) :
    Judged (expandText logging outside app nested again fmt winIdx)
      (expandText plain outside app nested'.read again'.read fmt winIdx)
      (TextSound outside app nested' again' fmt winIdx) := by
  refine (Judged.mapM fun token htoken => ?_).bind_pure _
  cases token with
  | expr inner =>
    have hlen := length_of_mem_tokens htoken
    exact (judged_expandExpression outside app (k := inner.length + 2) (fun s w hs => hnested s w (by omega))
      hagain le_rfl winIdx).bind_pure _
  | shell cmd => exact .pure _ fun _ => trivial
  | short c => exact judged_expandShort outside app _ winIdx c
  | char c => exact .pure _ fun _ => trivial

theorem judged_expandParts {again : Chars → ℕ → Logged Chars} {again' : Calls}
    (hagain : ∀ s w, Judged (again s w) (again'.read s w) (again'.Sound s w)) (k : ℕ) (fmt : Chars) (winIdx : ℕ) :
    Judged (expandParts logging outside app again k fmt winIdx) (expandParts plain outside app again'.read k fmt winIdx)
      (PartsSound outside app again' k fmt winIdx) := by
  induction k generalizing fmt winIdx with
  | zero => exact .stop .depth [] fun _ h => h
  | succ k ih =>
    exact @judged_expandText outside app _ _
      ⟨expandParts plain outside app again'.read k, PartsSound outside app again' k⟩ _ _
      (fun s w _ => ih s w) hagain winIdx

theorem judged_expandNested (d : ℕ) (fmt : Chars) (winIdx : ℕ) :
    Judged (expandNested logging outside app d fmt winIdx) (expandNested plain outside app d fmt winIdx)
      (Sound outside app d fmt winIdx) := by
  induction d generalizing fmt winIdx with
  | zero => exact .stop .depth [] fun _ h => h
  | succ d ih =>
    exact @judged_expandParts outside app _ ⟨expandNested plain outside app d, Sound outside app d⟩ ih
      (fmt.length + 1) fmt winIdx

/-- Why an expansion would stop, where `E` and `T` are nested less than so deep. -/
def stopsMet (outside : Outside) (app : App) (d : ℕ) (fmt : Chars) (winIdx : ℕ) (override : Option ℕ) : List Stop :=
  ((expandNested logging outside app d fmt winIdx).run (override, [])).2.2

theorem stopsMet_eq_nil_iff {d : ℕ} {fmt : Chars} {winIdx : ℕ} {override : Option ℕ} :
    stopsMet outside app d fmt winIdx override = [] ↔ Sound outside app d fmt winIdx override := by
  obtain ⟨more, hrun, hmore⟩ := judged_expandNested outside app d fmt winIdx override []
  rw [stopsMet, hrun]
  exact hmore

/-- An expansion returns if and only if, for some bound on how deep the modifiers `E` and `T`
are nested, nothing in the format makes it stop. -/
theorem returns_iff (fmt : Chars) (winIdx : ℕ) (override : Option ℕ) :
    (∃ v after, ExpandsTo outside app fmt winIdx override v after) ↔
      ∃ d, Sound outside app d fmt winIdx override := by
  refine ⟨fun ⟨v, after, h⟩ => ?_, fun ⟨d, hd⟩ => ?_⟩
  · obtain ⟨d, hd⟩ := (expandsTo_iff outside app).1 h
    exact ⟨d, (stopsMet_eq_nil_iff outside app).1 (by rw [stopsMet, hd])⟩
  · have hstops := (stopsMet_eq_nil_iff outside app).2 hd
    exact ⟨_, _, (expandsTo_iff outside app).2 ⟨d, Prod.ext rfl (Prod.ext rfl hstops)⟩⟩

/-- An option of the user that expands itself. -/
def selfExpanding : App :=
  .sample ['w'] fun name => if name = "@a".toList then some "#{E:@a}".toList else none

section
variable (nested again : Chars → ℕ → Logged Chars)

theorem value_selfExpanding (s : Option ℕ × List Stop) :
    (expandVarOrFormat logging .bare selfExpanding nested "@a".toList 0).run s = ("#{E:@a}".toList, s) := rfl

theorem chain_selfExpanding (s : Option ℕ × List Stop) :
    (tryExpandModifierChain logging .bare selfExpanding nested again "E:@a".toList 0).run s =
      (some ((again "#{E:@a}".toList 0).run s).1, ((again "#{E:@a}".toList 0).run s).2) := by
  have hspec : findModifierColon "E:@a".toList = some (['E'], "@a".toList) := by decide
  have hparsed : parseModifierChain logging ['E'] = pure [.expand] := rfl
  rw [tryExpandModifierChain, if_neg (by decide), hspec]
  dsimp only
  rw [if_neg (by decide), hparsed, pure_bind, if_neg (by decide)]
  rw [expandTarget, if_neg (by decide), StateT.run_bind, value_selfExpanding]
  rfl

/-- The call for its format comes to the one for its value, which is the same text. -/
theorem expandText_selfExpanding (s : Option ℕ × List Stop) :
    ((expandText logging .bare selfExpanding nested again "#{E:@a}".toList 0).run s).2 =
      ((again "#{E:@a}".toList 0).run s).2 := by
  have htokens : tokens "#{E:@a}".toList = [.expr "E:@a".toList] := rfl
  have hexpr : expandExpression logging .bare selfExpanding nested again "E:@a".toList 0 =
      expandChain logging .bare selfExpanding nested again "E:@a".toList 0 := rfl
  rw [expandText, htokens]
  simp only [List.mapM_cons, List.mapM_nil, expandToken, hexpr, expandChain]
  simp only [StateT.run_bind, chain_selfExpanding]
  rfl

end

theorem stopsMet_succ_selfExpanding (d : ℕ) :
    stopsMet .bare selfExpanding (d + 1) "#{E:@a}".toList 0 none =
      stopsMet .bare selfExpanding d "#{E:@a}".toList 0 none :=
  congrArg Prod.snd (expandText_selfExpanding _ _ (none, []))

/-- However deep the modifiers may be nested, the limit is reached. -/
theorem stopsMet_selfExpanding (d : ℕ) : stopsMet .bare selfExpanding d "#{E:@a}".toList 0 none = [.depth] := by
  induction d with
  | zero => rfl
  | succ d ih => rw [stopsMet_succ_selfExpanding, ih]

/-- A segment of a chain that is no ASCII character, the least integer by `-1`, and an option
that expands itself. -/
theorem expansion_stops :
    (∀ v after, ¬ExpandsTo .bare selfExpanding "#{t;é:x}".toList 0 none v after) ∧
    (∀ v after, ¬ExpandsTo .bare selfExpanding "#{e|/:-9223372036854775808,-1}".toList 0 none v after) ∧
    ∀ v after, ¬ExpandsTo .bare selfExpanding "#{E:@a}".toList 0 none v after := by
  have hslice : ∀ n, (expandFormatForWindow running .bare selfExpanding (n + 1) "#{t;é:x}".toList 0).run none =
      .error .slice := fun _ => rfl
  have hquotient : ∀ n, (expandFormatForWindow running .bare selfExpanding (n + 1)
      "#{e|/:-9223372036854775808,-1}".toList 0).run none = .error .arithmetic := fun _ => rfl
  refine ⟨fun v after ⟨n, h⟩ => ?_, fun v after ⟨n, h⟩ => ?_, fun v after h => ?_⟩
  · cases n with
    | zero => cases h
    | succ n => cases (hslice n).symm.trans h
  · cases n with
    | zero => cases h
    | succ n => cases (hquotient n).symm.trans h
  · obtain ⟨d, hd⟩ := (expandsTo_iff .bare selfExpanding).1 h
    have hstops := stopsMet_selfExpanding d
    rw [stopsMet, hd] at hstops
    cases hstops

end Winsmux.Format
