import Winsmux.MonadRelation
import Winsmux.Format.Expand
import Winsmux.Format.Pieces

/-!
# One format under two effects

What two effects do to the same text is related as soon as their primitives are, whatever
the relation: it goes through every function of the engine. A call reaches only parts of
its own text, which are shorter, and the values under `E` and `T`, which can be anything.
-/
namespace Winsmux.Format
open CharText PathTree Layout

variable {m n : Type → Type} [Monad m] [Monad n] {R : MonadRelation m n} {fx : Effects m} {gx : Effects n}

/-- Two effects that stop alike. -/
structure Stopping (R : MonadRelation m n) (fx : Effects m) (gx : Effects n) : Prop where
  stop {α : Type} (s : Stop) (a : α) : R.Rel (fx.stop s a) (gx.stop s a)

/-- Two effects that are related on stops, on loops over panes and on the variables. -/
structure Related (R : MonadRelation m n) (fx : Effects m) (gx : Effects n) (outside : Outside) (app : App) :
    Prop extends Stopping R fx gx where
  atPane {α : Type} (pos : ℕ) {x : m α} {y : n α} : R.Rel x y → R.Rel (fx.atPane pos x) (gx.atPane pos y)
  var (var : Chars) (winIdx : ℕ) : R.Rel (expandVar fx outside app var winIdx) (expandVar gx outside app var winIdx)

namespace Stopping

variable (h : Stopping R fx gx) (outside : Outside) (app : App)
include h

theorem afterFirstByte (s : Chars) : R.Rel (Format.afterFirstByte fx s) (Format.afterFirstByte gx s) := by
  cases s with
  | nil => exact R.rel_pure []
  | cons c s => exact R.rel_ite (fun _ => R.rel_pure s) fun _ => h.stop .slice s

theorem parseSingleModifier (spec : Chars) :
    R.Rel (Format.parseSingleModifier fx spec) (Format.parseSingleModifier gx spec) := by
  cases spec with
  | nil => exact R.rel_pure none
  | cons first s =>
    refine R.rel_bind (h.afterFirstByte (first :: s)) fun rest => ?_
    split <;> try exact R.rel_pure _
    · cases rest with
      | nil => exact R.rel_pure _
      | cons sep inner => exact R.rel_ite (fun _ => R.rel_pure _) fun _ => R.rel_pure _
    · cases rest with
      | nil => exact R.rel_pure _
      | cons sep inner => exact R.rel_bind (h.afterFirstByte _) fun inner => R.rel_pure _
    · cases rest with
      | nil => exact R.rel_pure _
      | cons sep inner => exact R.rel_bind (h.afterFirstByte _) fun inner => R.rel_pure _

theorem parseModifierChain [LawfulMonad m] [LawfulMonad n] (spec : Chars) :
    R.Rel (Format.parseModifierChain fx spec) (Format.parseModifierChain gx spec) :=
  R.rel_bind (R.rel_mapM fun part _ => h.parseSingleModifier part) fun _ => R.rel_pure _

theorem narrow (bits k : ℕ) : R.Rel (Format.narrow fx outside bits k) (Format.narrow gx outside bits k) :=
  R.rel_ite (fun _ => R.rel_pure k) fun _ => R.rel_ite (fun _ => h.stop _ _) fun _ => R.rel_pure _

theorem checked {α : Type} (fits : Bool) (value : α) :
    R.Rel (Format.checked fx outside fits value) (Format.checked gx outside fits value) :=
  R.rel_ite (fun _ => h.stop _ _) fun _ => R.rel_pure value

theorem edge (w : Window) (t : Target) (default : Chars) {text : Rect → m Chars} {text' : Rect → n Chars}
    (ht : ∀ r, R.Rel (text r) (text' r)) :
    R.Rel (Format.edge fx outside app w t default text) (Format.edge gx outside app w t default text') := by
  rw [Format.edge, Format.edge]
  cases w.pane t with
  | none => exact R.rel_pure default
  | some p =>
    refine R.rel_bind (h.checked outside _ _) fun rects => ?_
    cases w.rectOf p.id rects with
    | none => exact R.rel_pure default
    | some r => exact ht r

theorem edgeText (w : Window) (t : Target) (var : Chars) :
    Option.Rel R.Rel (Format.edgeText fx outside app w t var) (Format.edgeText gx outside app w t var) := by
  rw [Format.edgeText, Format.edgeText]
  split
  · exact .some (h.edge outside app w t _ fun r => R.rel_pure _)
  · exact .some (h.edge outside app w t _ fun r => R.rel_pure _)
  · exact .some (h.edge outside app w t _ fun r => R.rel_bind (h.narrow outside _ _) fun _ => R.rel_pure _)
  · exact .some (h.edge outside app w t _ fun r => R.rel_bind (h.narrow outside _ _) fun _ => R.rel_pure _)
  · exact .some (h.edge outside app w t _ fun r => R.rel_pure _)
  · exact .some (h.edge outside app w t _ fun r => R.rel_bind (h.narrow outside _ _) fun _ =>
      R.rel_bind (h.narrow outside _ _) fun _ => R.rel_pure _)
  · exact .some (h.edge outside app w t _ fun r => R.rel_pure _)
  · exact .some (h.edge outside app w t _ fun r => R.rel_bind (h.narrow outside _ _) fun _ =>
      R.rel_bind (h.narrow outside _ _) fun _ => R.rel_pure _)
  · exact .none

theorem activePane (t : PathTree Split Pane) (path : List ℕ) :
    R.Rel (Format.activePane fx t path) (Format.activePane gx t path) := by
  induction t using PathTree.tree_induction generalizing path with
  | leaf p => exact R.rel_pure (some p)
  | split a children ih =>
    have hin : ∀ (cs : List (PathTree Split Pane)) (i : ℕ) (path : List ℕ), (∀ c ∈ cs, ∀ path,
        R.Rel (Format.activePane fx c path) (Format.activePane gx c path)) →
        R.Rel (Format.activePaneIn fx cs i path) (Format.activePaneIn gx cs i path) := by
      intro cs
      induction cs with
      | nil => exact fun _ _ _ => h.stop _ _
      | cons c cs ihcs =>
        intro i path hall
        cases i with
        | zero => exact hall c List.mem_cons_self path
        | succ i => exact ihcs i path fun d hd => hall d (List.mem_cons_of_mem c hd)
    cases path with
    | nil => exact R.rel_pure none
    | cons i path => exact hin children _ path ih

theorem aboutActive (w : Window) (default : Chars) {text : Pane → m Chars} {text' : Pane → n Chars}
    (ht : ∀ p, R.Rel (text p) (text' p)) :
    R.Rel (Format.aboutActive fx w default text) (Format.aboutActive gx w default text') := by
  refine R.rel_bind (h.activePane w.root w.activePath) fun p => ?_
  cases p with
  | none => exact R.rel_pure default
  | some p => exact ht p

theorem paneLast (w : Window) (t : Target) :
    R.Rel (Format.paneLast fx app w t) (Format.paneLast gx app w t) := by
  rw [Format.paneLast, Format.paneLast]
  cases w.pane t with
  | none => exact R.rel_pure _
  | some p =>
    refine R.rel_ite (fun _ => R.rel_pure _) fun _ =>
      R.rel_bind (h.activePane w.root app.lastPanePath) fun last => ?_
    cases last with
    | none => exact R.rel_pure _
    | some last => exact R.rel_pure _

theorem activeText (w : Window) (var : Chars) :
    Option.Rel R.Rel (Format.activeText fx outside app w var) (Format.activeText gx outside app w var) := by
  rw [Format.activeText, Format.activeText]
  split
  · exact .some (h.aboutActive w _ fun p => R.rel_bind (h.checked outside _ _) fun _ => R.rel_pure _)
  · exact .some (h.aboutActive w _ fun p => R.rel_bind (h.checked outside _ _) fun _ => R.rel_pure _)
  · cases app.copyPos with
    | none => exact .some (R.rel_pure _)
    | some pos => exact .some (h.aboutActive w _ fun p => R.rel_pure _)
  · cases app.copyPos with
    | none => exact .some (R.rel_pure _)
    | some pos => exact .some (h.aboutActive w _ fun p => R.rel_pure _)
  · exact .some (h.aboutActive w _ fun p => R.rel_pure _)
  · exact .some (h.aboutActive w _ fun p => R.rel_pure _)
  · exact .none

theorem narrowSigned (z : ℤ) : R.Rel (Format.narrowSigned fx outside z) (Format.narrowSigned gx outside z) :=
  R.rel_ite (fun _ => R.rel_pure z) fun _ => R.rel_ite (fun _ => h.stop _ _) fun _ => R.rel_pure _

theorem divided (quotient : ℤ → ℤ → ℤ) (a b : ℤ) :
    R.Rel (Format.divided fx quotient a b) (Format.divided gx quotient a b) :=
  R.rel_ite (fun _ => R.rel_pure 0) fun _ => R.rel_ite (fun _ => h.stop _ _) fun _ => R.rel_pure _

theorem intMath (op : Char) (a b : ℤ) :
    R.Rel (Format.intMath fx outside op a b) (Format.intMath gx outside op a b) := by
  unfold Format.intMath
  split
  · exact h.narrowSigned outside _
  · exact h.narrowSigned outside _
  · exact h.narrowSigned outside _
  · exact h.divided _ a b
  · exact h.divided _ a b
  · exact R.rel_pure 0

theorem mathExpr (op : Char) (floating : Bool) (decimals : ℕ) (value : Chars) :
    R.Rel (Format.mathExpr fx outside op floating decimals value)
      (Format.mathExpr gx outside op floating decimals value) := by
  have hprecision : R.Rel (precision fx outside decimals) (precision gx outside decimals) :=
    R.rel_ite (fun _ => R.rel_pure decimals) fun _ => h.stop _ _
  rw [Format.mathExpr, Format.mathExpr]
  split
  · refine R.rel_ite (fun _ => R.rel_bind hprecision fun _ => R.rel_pure _) fun _ =>
      R.rel_bind (h.intMath outside op _ _) fun r => ?_
    exact R.rel_ite (fun _ => R.rel_bind hprecision fun _ => R.rel_pure _) fun _ => R.rel_pure _
  · exact R.rel_pure _

theorem trimWithMarker (k : ℤ) (marker value : Chars) :
    R.Rel (Format.trimWithMarker fx outside k marker value) (Format.trimWithMarker gx outside k marker value) := by
  have hnegated : R.Rel (negated fx outside k) (negated gx outside k) :=
    R.rel_ite (fun _ => R.rel_ite (fun _ => h.stop _ _) fun _ => R.rel_pure _) fun _ => R.rel_pure _
  exact R.rel_ite (fun _ => R.rel_pure value) fun _ => R.rel_ite (fun _ => R.rel_pure _) fun _ =>
    R.rel_bind hnegated fun _ => R.rel_pure _

theorem searchContent (regex caseInsensitive : Bool) (value : Chars) (winIdx : ℕ) :
    R.Rel (Format.searchContent fx outside app regex caseInsensitive value winIdx)
      (Format.searchContent gx outside app regex caseInsensitive value winIdx) := by
  refine R.rel_ite (fun _ => R.rel_pure _) fun _ => ?_
  cases app.windows[winIdx]? with
  | none => exact R.rel_pure _
  | some w => exact h.aboutActive w _ fun p => R.rel_pure _

section again
variable {again : Chars → ℕ → m Chars} {again' : Chars → ℕ → n Chars}
  (hagain : ∀ s w, R.Rel (again s w) (again' s w))
include hagain

theorem applyModifier (modifier : Modifier) (value : Chars) (winIdx : ℕ) :
    R.Rel (Format.applyModifier fx outside app again modifier value winIdx)
      (Format.applyModifier gx outside app again' modifier value winIdx) := by
  cases modifier with
  | expand => exact hagain value winIdx
  | expandTime => exact R.rel_bind (hagain value winIdx) fun _ => R.rel_pure _
  | trim k => exact h.trimWithMarker outside k _ value
  | trimWithMarker k marker => exact h.trimWithMarker outside k marker value
  | mathExpr op floating decimals => exact h.mathExpr outside op floating decimals value
  | searchContent regex caseInsensitive => exact h.searchContent outside app regex caseInsensitive value winIdx
  | time | basename | dirname | quote | substitute | pad | «match» | width => exact R.rel_pure _

theorem applyModifiers (modifiers : List Modifier) (value : Chars) (winIdx : ℕ) :
    R.Rel (Format.applyModifiers fx outside app again modifiers value winIdx)
      (Format.applyModifiers gx outside app again' modifiers value winIdx) := by
  induction modifiers generalizing value with
  | nil => exact R.rel_pure value
  | cons modifier modifiers ih =>
    exact R.rel_bind (h.applyModifier outside app hagain modifier value winIdx) fun value => ih value

end again

variable [LawfulMonad m] [LawfulMonad n]

theorem indexText (w : Window) (winIdx : ℕ) (t : Target) (var : Chars) :
    Option.Rel R.Rel (Format.indexText fx outside app w winIdx t var)
      (Format.indexText gx outside app w winIdx t var) := by
  rw [Format.indexText, Format.indexText]
  split
  · exact .some (R.rel_map _ (h.narrow outside _ _))
  · exact .some (R.rel_map _ (h.narrow outside _ _))
  · exact .some (h.paneLast app w t)
  · exact .some (h.checked outside _ _)
  · exact .some (h.checked outside _ _)
  · exact .some (R.rel_map _ (h.narrow outside _ _))
  · exact .none

theorem windowVar (w : Window) (winIdx : ℕ) (t : Target) (var : Chars) :
    R.Rel (Format.windowVar fx outside app w winIdx t var) (Format.windowVar gx outside app w winIdx t var) :=
  R.rel_getD (R.rel_or (h.indexText outside app w winIdx t var)
    (R.rel_or (h.edgeText outside app w t var) (h.activeText outside app w var))) (R.rel_pure _)

/-- Where the same pane is meant. -/
theorem expandVar (ht : R.Rel fx.target gx.target) (var : Chars) (winIdx : ℕ) :
    R.Rel (Format.expandVar fx outside app var winIdx) (Format.expandVar gx outside app var winIdx) := by
  rw [Format.expandVar, Format.expandVar]
  cases app.windows[winIdx]? with
  | none => exact R.rel_pure _
  | some w => exact R.rel_bind ht fun override => h.windowVar outside app w winIdx _ var

theorem expandShort (hasStrftime : Bool) (winIdx : ℕ) (c : Char) :
    R.Rel (Format.expandShort fx outside app hasStrftime winIdx c)
      (Format.expandShort gx outside app hasStrftime winIdx c) := by
  unfold Format.expandShort
  split <;> try exact R.rel_pure _
  · exact R.rel_ite (fun _ => R.rel_map _ (h.narrow outside _ _)) fun _ => R.rel_pure _
  · cases app.windows[winIdx]? with
    | none => exact R.rel_pure _
    | some w => exact R.rel_map _ (h.narrow outside _ _)

end Stopping

namespace Related

variable {outside : Outside} {app : App} (h : Related R fx gx outside app)
  [LawfulMonad m] [LawfulMonad n]
include h

section nested
variable {nested again : Chars → ℕ → m Chars} {nested' again' : Chars → ℕ → n Chars} {k : ℕ}
  (hnested : ∀ s w, s.length ≤ k → R.Rel (nested s w) (nested' s w))
include hnested

omit [LawfulMonad m] [LawfulMonad n] in
theorem expandVarOrFormat {target : Chars} (hk : target.length ≤ k) (winIdx : ℕ) :
    R.Rel (Format.expandVarOrFormat fx outside app nested target winIdx)
      (Format.expandVarOrFormat gx outside app nested' target winIdx) :=
  R.rel_ite (fun _ => hnested target winIdx hk) fun _ => R.rel_ite (fun _ => R.rel_pure target) fun _ =>
    R.rel_bind (h.var target winIdx) fun _ => R.rel_pure _

theorem expandTarget (modifiers : List Modifier) {target : Chars} (hk : target.length ≤ k) (winIdx : ℕ) :
    R.Rel (Format.expandTarget fx outside app nested modifiers target winIdx)
      (Format.expandTarget gx outside app nested' modifiers target winIdx) := by
  refine R.rel_ite (fun _ => R.rel_bind (R.rel_mapM fun part hpart => ?_) fun _ => R.rel_pure _) fun _ =>
    h.expandVarOrFormat hnested hk winIdx
  exact h.expandVarOrFormat hnested ((length_le_of_mem_splitAtDepth0 hpart).trans hk) winIdx

theorem tryExpandModifierChain (hagain : ∀ s w, R.Rel (again s w) (again' s w)) {expr : Chars}
    (hk : expr.length ≤ k) (winIdx : ℕ) :
    R.Rel (Format.tryExpandModifierChain fx outside app nested again expr winIdx)
      (Format.tryExpandModifierChain gx outside app nested' again' expr winIdx) := by
  refine R.rel_ite (fun _ => R.rel_pure none) fun _ => ?_
  cases hcolon : findModifierColon expr with
  | none => exact R.rel_pure none
  | some r =>
    have htarget := length_modifierColonFrom (a := r.1) (b := r.2) hcolon
    refine R.rel_ite (fun _ => R.rel_pure _) fun _ => R.rel_bind (h.parseModifierChain r.1) fun modifiers =>
      R.rel_ite (fun _ => R.rel_pure none) fun _ =>
        R.rel_bind (h.expandTarget hnested modifiers (by omega) winIdx) fun value =>
          R.rel_bind (h.applyModifiers outside app hagain modifiers value winIdx) fun _ => R.rel_pure _

omit [LawfulMonad m] [LawfulMonad n] in
theorem compareParts (op : CompareOp) {parts : List Chars} (hk : ∀ part ∈ parts, part.length ≤ k) (winIdx : ℕ) :
    R.Rel (Format.compareParts fx outside app nested op parts winIdx)
      (Format.compareParts gx outside app nested' op parts winIdx) := by
  match parts with
  | [] => exact R.rel_pure _
  | [_] => exact R.rel_pure _
  | lhs :: rhs :: rest =>
    exact R.rel_bind (h.expandVarOrFormat hnested (hk lhs (by simp)) winIdx) fun _ =>
      R.rel_bind (h.expandVarOrFormat hnested (hk rhs (by simp)) winIdx) fun _ => R.rel_pure _

omit [LawfulMonad m] [LawfulMonad n] in
theorem expandBoolean (decides : Bool) {parts : List Chars} (hk : ∀ part ∈ parts, part.length ≤ k)
    (winIdx : ℕ) :
    R.Rel (Format.expandBoolean fx outside app nested decides parts winIdx)
      (Format.expandBoolean gx outside app nested' decides parts winIdx) := by
  induction parts with
  | nil => exact R.rel_pure _
  | cons part parts ih =>
    refine R.rel_bind (h.expandVarOrFormat hnested (hk part List.mem_cons_self) winIdx) fun _ =>
      R.rel_ite (fun _ => R.rel_pure _) fun _ => ih fun p hp => hk p (List.mem_cons_of_mem part hp)

omit [LawfulMonad m] [LawfulMonad n] h in
/-- The condition may be put into braces, which makes it longer. -/
theorem expandCondition {cond : Chars} (hk : cond.length + 3 ≤ k) (winIdx : ℕ) :
    R.Rel (Format.expandCondition nested cond winIdx) (Format.expandCondition nested' cond winIdx) := by
  rw [Format.expandCondition, Format.expandCondition]
  cases hcmp : findComparisonInCond cond with
  | none =>
    refine R.rel_bind (hnested _ winIdx ?_) fun _ => R.rel_pure _
    split
    · omega
    · simp only [List.length_cons, List.length_append, List.length_nil]
      omega
  | some r =>
    have hsides := @length_findComparisonInCond _ r.1 r.2.2 r.2.1 hcmp
    exact R.rel_bind (hnested r.1 winIdx (by omega)) fun _ =>
      R.rel_bind (hnested r.2.2 winIdx (by omega)) fun _ => R.rel_pure _

omit [LawfulMonad m] [LawfulMonad n] h in
theorem expandConditional {body : Chars} (hk : body.length + 3 ≤ k) (winIdx : ℕ) :
    R.Rel (Format.expandConditional nested body winIdx) (Format.expandConditional nested' body winIdx) := by
  have hparts := length_splitConditional body
  refine R.rel_bind (expandCondition hnested (by omega) winIdx) fun isTrue => hnested _ winIdx ?_
  split <;> omega

theorem expandLoop (kind : Char) {fmt : Chars} (hk : fmt.length ≤ k) (winIdx : ℕ) :
    R.Rel (Format.expandLoop fx app nested kind fmt winIdx) (Format.expandLoop gx app nested' kind fmt winIdx) := by
  unfold Format.expandLoop
  split
  · exact R.rel_bind (R.rel_mapM fun wi _ => hnested fmt wi hk) fun _ => R.rel_pure _
  · exact R.rel_bind (R.rel_mapM fun pos _ => h.atPane pos (hnested fmt winIdx hk)) fun _ => R.rel_pure _
  · exact hnested fmt winIdx hk

theorem expandChain (hagain : ∀ s w, R.Rel (again s w) (again' s w)) {expr : Chars} (hk : expr.length ≤ k)
    (winIdx : ℕ) :
    R.Rel (Format.expandChain fx outside app nested again expr winIdx)
      (Format.expandChain gx outside app nested' again' expr winIdx) := by
  refine R.rel_bind (h.tryExpandModifierChain hnested hagain hk winIdx) fun result => ?_
  cases result with
  | none => exact h.var expr winIdx
  | some result => exact R.rel_pure result

theorem expandExpression (hagain : ∀ s w, R.Rel (again s w) (again' s w)) {expr : Chars}
    (hk : expr.length + 2 ≤ k) (winIdx : ℕ) :
    R.Rel (Format.expandExpression fx outside app nested again expr winIdx)
      (Format.expandExpression gx outside app nested' again' expr winIdx) := by
  cases expr with
  | nil => exact R.rel_pure []
  | cons first body =>
    rw [Format.expandExpression, Format.expandExpression]
    refine R.rel_ite (fun _ => expandConditional hnested (by rw [List.length_cons] at hk; omega) winIdx) fun _ => ?_
    have hparts : ∀ {rest part : Chars}, rest.length ≤ (first :: body).length →
        part ∈ splitAtDepth0 rest ',' → part.length ≤ k := fun hrest hpart => by
      have := length_le_of_mem_splitAtDepth0 hpart
      omega
    cases hcmp : comparisonOp (first :: body) with
    | some r =>
      obtain ⟨op, -, hop⟩ := List.exists_of_findSome?_eq_some hcmp
      obtain ⟨rest, hrest, rfl⟩ := Option.map_eq_some_iff.1 hop
      exact h.compareParts hnested op (fun _ => hparts (length_stripPrefix hrest)) winIdx
    | none =>
      cases hor : stripPrefix ['|', '|', ':'] (first :: body) with
      | some rest => exact h.expandBoolean hnested true (fun _ => hparts (length_stripPrefix hor)) winIdx
      | none =>
        cases hand : stripPrefix ['&', '&', ':'] (first :: body) with
        | some rest =>
          exact h.expandBoolean hnested false (fun _ => hparts (length_stripPrefix hand)) winIdx
        | none =>
          cases hloop : loopOf (first :: body) with
          | some r =>
            have := @length_loopOf _ r.2 r.1 hloop
            exact h.expandLoop hnested r.1 (by omega) winIdx
          | none => exact h.expandChain hnested hagain (by omega) winIdx

end nested

/-- One call, over the calls that it makes in turn. -/
theorem expandText {nested again : Chars → ℕ → m Chars} {nested' again' : Chars → ℕ → n Chars} {fmt : Chars}
    (hnested : ∀ s w, s.length < fmt.length → R.Rel (nested s w) (nested' s w))
    (hagain : ∀ s w, R.Rel (again s w) (again' s w)) (winIdx : ℕ) :
    R.Rel (Format.expandText fx outside app nested again fmt winIdx)
      (Format.expandText gx outside app nested' again' fmt winIdx) := by
  refine R.rel_bind (R.rel_mapM fun token htoken => ?_) fun _ => R.rel_pure _
  cases token with
  | expr inner =>
    have hlen := length_of_mem_tokens htoken
    refine R.rel_bind (h.expandExpression (k := inner.length + 2)
      (fun s w hs => hnested s w (by omega)) hagain le_rfl winIdx) fun _ => R.rel_pure _
  | shell cmd => exact R.rel_pure _
  | short c => exact h.expandShort outside app _ winIdx c
  | char c => exact R.rel_pure _

/-- The same number of nested calls on both sides. -/
theorem expandFormatForWindow (k : ℕ) (fmt : Chars) (winIdx : ℕ) :
    R.Rel (Format.expandFormatForWindow fx outside app k fmt winIdx)
      (Format.expandFormatForWindow gx outside app k fmt winIdx) := by
  induction k generalizing fmt winIdx with
  | zero => exact h.stop .depth []
  | succ k ih => exact h.expandText (fun s w _ => ih s w) ih winIdx

end Related
end Winsmux.Format
