import Winsmux.Config.Loading

/-!
# Loading comes to an end

A load has a stack of files open, each with what is left of it. Nothing keeps a file from loading
itself, and such a load never ends. Where no file is loaded while it is open, the files on the stack
are different ones: their number bounds the depth, and every file that is reached is applied to its
last line.
-/
namespace Winsmux.Config
open CharText Relation

variable {σ : Type}

/-- What is left of a file that is open. -/
inductive Remaining (σ : Type) where
  | lines (ls : List Line) (ifStack : List IfState)
  | acts (as : List (App σ → Act σ))

/-- A file that is open, and what the file that loads it does when it is closed. -/
structure OpenFile (σ : Type) where
  entry : Entry
  remaining : Remaining σ
  after : App σ → App σ

/-- The condition that a line evaluates under the blocks that are open. -/
def evaluated (ifStack : List IfState) : Line → Option Chars
  | .ifLine condition => if active ifStack then some condition else none
  | .elifLine condition =>
    match ifStack with
    | [] => none
    | state :: _ => if state.parentActive && !state.satisfied then some condition else none
  | _ => none

def Remaining.length : Remaining σ → ℕ
  | .lines ls _ => ls.length
  | .acts as => as.length

section
variable (w : World σ)

/-- The commands of a file without what its lines do. -/
def quietCommands : Commands σ where
  expandFormat f app := (w.expandFormat f app).getD ([], app)
  parseConfigLine _ app := app

/-- What a line comes to, and the blocks that are open after it. -/
def lineNext (ifStack : List IfState) (app : App σ) (l : Line) : Act σ × List IfState :=
  let (ifStack', app') := step (quietCommands w) ifStack app l
  match l with
  | .command c => (if active ifStack then lineAct w (expandLine c app) app else .done app, ifStack')
  | l =>
    (if (evaluated ifStack l).all fun c => (w.expandFormat c app).isSome then .done app' else .panic, ifStack')

/-- All of a file. -/
def Remaining.all (e : Entry) (content : Chars) : Remaining σ :=
  match e.kind with
  | .conf => .lines (configLines content) []
  | _ => .acts (entryActs w e content)

/-- What comes next, and what is left after it. -/
def Remaining.next (app : App σ) : Remaining σ → Option (Act σ × Remaining σ)
  | .lines [] _ => none
  | .lines (l :: ls) ifStack => some ((lineNext w ifStack app l).1, .lines ls (lineNext w ifStack app l).2)
  | .acts [] => none
  | .acts (act :: as) => some (act app, .acts as)

/-- The files that are open, the innermost first, and the state, at some moment of the load of a
file. -/
inductive Reached (e₀ : Entry) (start : App σ) : List (OpenFile σ) → App σ → Prop
  | opened {content : Chars} : w.read e₀.path = some content →
      Reached e₀ start [⟨e₀, .all w e₀ content, id⟩] start
  | done {f : OpenFile σ} {fs : List (OpenFile σ)} {app app' : App σ} {r : Remaining σ} :
      Reached e₀ start (f :: fs) app → f.remaining.next w app = some (.done app', r) →
      Reached e₀ start ({ f with remaining := r } :: fs) app'
  | load {f : OpenFile σ} {fs : List (OpenFile σ)} {app before : App σ} {r : Remaining σ} {e : Entry}
      {after : App σ → App σ} {content : Chars} :
      Reached e₀ start (f :: fs) app → f.remaining.next w app = some (.load e before after, r) →
      w.read e.path = some content →
      Reached e₀ start (⟨e, .all w e content, after⟩ :: { f with remaining := r } :: fs) before
  | missing {f : OpenFile σ} {fs : List (OpenFile σ)} {app before : App σ} {r : Remaining σ} {e : Entry}
      {after : App σ → App σ} :
      Reached e₀ start (f :: fs) app → f.remaining.next w app = some (.load e before after, r) →
      w.read e.path = none → Reached e₀ start ({ f with remaining := r } :: fs) (after before)
  | closed {f g : OpenFile σ} {fs : List (OpenFile σ)} {app : App σ} :
      Reached e₀ start (f :: g :: fs) app → f.remaining.next w app = none →
      Reached e₀ start (g :: fs) (f.after app)

/-- In the load of a file no file is loaded while it is open, and nothing panics. -/
structure Harmless (e₀ : Entry) (start : App σ) : Prop where
  nodup {fs : List (OpenFile σ)} {app : App σ} : Reached w e₀ start fs app → (fs.map OpenFile.entry).Nodup
  goesOn {f : OpenFile σ} {fs : List (OpenFile σ)} {app : App σ} : Reached w e₀ start (f :: fs) app →
    ∀ r, f.remaining.next w app ≠ some (.panic, r)

/-- The rest of a file, with what is given for loading another. -/
def runRemaining (run : Entry → App (Load σ) → App (Load σ)) : Remaining σ → App (Load σ) → App (Load σ)
  | .lines ls ifStack, app => (runLines (loadingCommands w run) ls ifStack app).2
  | .acts as, app => as.foldl (fun app act => perform run act app) app

end

/-- The load has not stopped, and all that were reached but the given files were applied. -/
structure Accounted (opened : List Entry) (app : App (Load σ)) : Prop where
  ended : app.rest.ended = true
  applied : ∀ x ∈ app.rest.reached, x ∈ app.rest.applied ∨ x ∈ opened

variable {w : World σ} {e₀ : Entry} {start : App σ} {run run' : Entry → App (Load σ) → App (Load σ)}

theorem raise_lower (app : App (Load σ)) : raise app (lower app) = app := rfl

theorem length_next {r r' : Remaining σ} {app : App σ} {act : Act σ} (h : r.next w app = some (act, r')) :
    r'.length < r.length := by
  cases r with
  | lines ls ifStack =>
    cases ls with
    | nil => cases h
    | cons l ls =>
      cases h
      exact Nat.lt_succ_self _
  | acts as =>
    cases as with
    | nil => cases h
    | cons act as =>
      cases h
      exact Nat.lt_succ_self _

theorem runContent_eq_runRemaining (e : Entry) (content : Chars) (app : App (Load σ)) :
    runContent w run e content app = runRemaining w run (.all w e content) app := by
  rw [runContent, Remaining.all]
  cases e.kind <;> rfl

theorem holds_loading {condition : Chars} {app : App (Load σ)}
    (h : (w.expandFormat condition (lower app)).isSome) :
    holds (loadingCommands w run) condition app =
      ((holds (quietCommands w) condition (lower app)).1,
        raise app (holds (quietCommands w) condition (lower app)).2) := by
  obtain ⟨r, hr⟩ := Option.isSome_iff_exists.1 h
  simp only [holds, loadingCommands, quietCommands, hr]
  rfl

/-- A line of a load does what it comes to. -/
theorem step_loading {ifStack : List IfState} {app : App (Load σ)} {l : Line}
    (h : (lineNext w ifStack (lower app) l).1 ≠ .panic) :
    step (loadingCommands w run) ifStack app l = ((lineNext w ifStack (lower app) l).2,
      perform run (fun _ => (lineNext w ifStack (lower app) l).1) app) := by
  cases l with
  | skip | elseLine | endifLine => cases ifStack <;> rfl
  | hidden name value =>
    simp only [step, lineNext, evaluated, Option.all_none, if_true, perform]
    cases active ifStack <;> rfl
  | command c =>
    simp only [step, lineNext, perform]
    cases active ifStack <;> rfl
  | ifLine condition =>
    by_cases hactive : active ifStack = true
    · have hsome : (w.expandFormat condition (lower app)).isSome := by
        by_contra hnone
        simp [lineNext, evaluated, hactive, hnone] at h
      simp only [step, lineNext, evaluated, hactive, if_true, holds_loading hsome, Option.all_some, hsome, perform]
    · simp only [step, lineNext, evaluated, hactive, Bool.false_eq_true, if_false, Option.all_none, if_true,
        perform, raise_lower]
  | elifLine condition =>
    cases ifStack with
    | nil => rfl
    | cons state rest =>
      by_cases hopen : (state.parentActive && !state.satisfied) = true
      · have hsome : (w.expandFormat condition (lower app)).isSome := by
          by_contra hnone
          simp [lineNext, evaluated, hopen, hnone] at h
        simp [step, lineNext, evaluated, hopen, holds_loading hsome, hsome, perform]
      · simp [step, lineNext, evaluated, hopen, perform, raise_lower]

theorem runRemaining_next {r r' : Remaining σ} {app : App (Load σ)} {act : Act σ}
    (h : r.next w (lower app) = some (act, r')) (hact : act ≠ .panic) :
    runRemaining w run r app = runRemaining w run r' (perform run (fun _ => act) app) := by
  cases r with
  | lines ls ifStack =>
    cases ls with
    | nil => cases h
    | cons l ls =>
      cases h
      rw [runRemaining, runLines, step_loading hact]
      rfl
  | acts as =>
    cases as with
    | nil => cases h
    | cons act as =>
      cases h
      rfl

theorem runRemaining_of_next {r : Remaining σ} {app : App (Load σ)} (h : r.next w (lower app) = none) :
    runRemaining w run r app = app := by
  cases r with
  | lines ls ifStack =>
    cases ls with
    | nil => rfl
    | cons l ls => cases h
  | acts as =>
    cases as with
    | nil => rfl
    | cons act as => cases h

theorem Reached.readable {fs : List (OpenFile σ)} {app : App σ} (h : Reached w e₀ start fs app) :
    ∀ f ∈ fs, (w.read f.entry.path).isSome := by
  induction h with
  | opened hread => exact List.forall_mem_singleton.2 (Option.isSome_of_eq_some hread)
  | done _ _ ih => exact List.forall_mem_cons.2 (List.forall_mem_cons.1 ih)
  | load _ _ hread ih =>
    exact List.forall_mem_cons.2 ⟨Option.isSome_of_eq_some hread, List.forall_mem_cons.2 (List.forall_mem_cons.1 ih)⟩
  | missing _ _ _ ih => exact List.forall_mem_cons.2 (List.forall_mem_cons.1 ih)
  | closed _ _ ih => exact (List.forall_mem_cons.1 ih).2

/-- No more files are open at once than there are. -/
theorem Harmless.length_le (hs : Harmless w e₀ start) {files : Finset Entry}
    (hfiles : ∀ e, (w.read e.path).isSome → e ∈ files) {fs : List (OpenFile σ)} {app : App σ}
    (h : Reached w e₀ start fs app) : fs.length ≤ files.card := by
  have hsubset : (fs.map OpenFile.entry).toFinset ⊆ files := fun e he => by
    obtain ⟨f, hf, rfl⟩ := List.mem_map.1 (List.mem_toFinset.1 he)
    exact hfiles _ (h.readable f hf)
  have hle := Finset.card_le_card hsubset
  rwa [List.toFinset_card_of_nodup (hs.nodup h), List.length_map] at hle

/-- The files below an open file, and the state, once nothing is left of it. -/
def Returned (w : World σ) (e₀ : Entry) (start : App σ) (fs : List (OpenFile σ)) (e : Entry)
    (after : App σ → App σ) (app : App (Load σ)) : Prop :=
  (∃ r, r.next w (lower app) = none ∧ Reached w e₀ start (⟨e, r, after⟩ :: fs) (lower app)) ∧
    Accounted (fs.map OpenFile.entry) app

/-- What is given for loading a file comes back from every load that an open file makes, and so does
another, to the same. -/
def Loads (w : World σ) (e₀ : Entry) (start : App σ) (run run' : Entry → App (Load σ) → App (Load σ))
    (fs : List (OpenFile σ)) : Prop :=
  ∀ e content after app, w.read e.path = some content →
    Reached w e₀ start (⟨e, .all w e content, after⟩ :: fs) (lower app) →
    Accounted (fs.map OpenFile.entry) app →
    Returned w e₀ start fs e after (run e app) ∧ run' e app = run e app

theorem runEntry_of_not_read {e : Entry} (h : w.read e.path = none) (depth : ℕ) (app : App (Load σ)) :
    runEntry w depth e app = app := by
  cases depth <;> rw [runEntry, h]

/-- One act of an open file. -/
theorem perform_reached (hs : Harmless w e₀ start) {f : OpenFile σ} {fs : List (OpenFile σ)} {r : Remaining σ}
    (hrun : Loads w e₀ start run run' ({ f with remaining := r } :: fs))
    (hmissing : ∀ e, w.read e.path = none → ∀ app, run e app = app ∧ run' e app = app)
    {app : App (Load σ)} {act : Act σ} (hreach : Reached w e₀ start (f :: fs) (lower app))
    (hacc : Accounted ((f :: fs).map OpenFile.entry) app) (hnext : f.remaining.next w (lower app) = some (act, r)) :
    Reached w e₀ start ({ f with remaining := r } :: fs) (lower (perform run (fun _ => act) app)) ∧
      Accounted ((f :: fs).map OpenFile.entry) (perform run (fun _ => act) app) ∧
      perform run' (fun _ => act) app = perform run (fun _ => act) app := by
  cases act with
  | done a => exact ⟨hreach.done hnext, ⟨hacc.ended, hacc.applied⟩, rfl⟩
  | panic => exact absurd hnext (hs.goesOn hreach r)
  | load e before after =>
    simp only [perform]
    cases hread : w.read e.path with
    | none =>
      rw [(hmissing e hread _).1, (hmissing e hread _).2]
      exact ⟨hreach.missing hnext hread, ⟨hacc.ended, hacc.applied⟩, rfl⟩
    | some content =>
      obtain ⟨⟨⟨rest, hrest, hreturned⟩, hacc'⟩, heq⟩ := hrun e content after (raise app before) hread
        (hreach.load hnext hread) ⟨hacc.ended, hacc.applied⟩
      rw [heq]
      exact ⟨hreturned.closed hrest, ⟨hacc'.ended, hacc'.applied⟩, rfl⟩

/-- The rest of an open file, by what is left of it. -/
theorem runRemaining_reached (hs : Harmless w e₀ start) {f : OpenFile σ} {fs : List (OpenFile σ)}
    (hrun : ∀ r, Loads w e₀ start run run' ({ f with remaining := r } :: fs))
    (hmissing : ∀ e, w.read e.path = none → ∀ app, run e app = app ∧ run' e app = app)
    {app : App (Load σ)} (hreach : Reached w e₀ start (f :: fs) (lower app))
    (hacc : Accounted ((f :: fs).map OpenFile.entry) app) :
    (∃ r, r.next w (lower (runRemaining w run f.remaining app)) = none ∧
      Reached w e₀ start ({ f with remaining := r } :: fs) (lower (runRemaining w run f.remaining app))) ∧
      Accounted ((f :: fs).map OpenFile.entry) (runRemaining w run f.remaining app) ∧
      runRemaining w run' f.remaining app = runRemaining w run f.remaining app := by
  induction hn : f.remaining.length using Nat.strong_induction_on generalizing f app with
  | _ n ih =>
    cases hnext : f.remaining.next w (lower app) with
    | none =>
      rw [runRemaining_of_next hnext, runRemaining_of_next hnext]
      exact ⟨⟨f.remaining, hnext, hreach⟩, hacc, rfl⟩
    | some p =>
      obtain ⟨act, r⟩ := p
      have hact : act ≠ .panic := fun h => hs.goesOn hreach r (h ▸ hnext)
      obtain ⟨hreach', hacc', heq⟩ := perform_reached hs (hrun r) hmissing hreach hacc hnext
      rw [runRemaining_next hnext hact, runRemaining_next hnext hact, heq]
      exact ih r.length (hn ▸ length_next hnext) (f := { f with remaining := r }) hrun hreach' hacc' rfl

/-- The load of a file comes back to the files below it, and how deep it may go does not matter, if
that is deep enough. -/
theorem runEntry_returned (hs : Harmless w e₀ start) {files : Finset Entry}
    (hfiles : ∀ e, (w.read e.path).isSome → e ∈ files) {depth depth' : ℕ} {fs : List (OpenFile σ)}
    (hdepth : files.card ≤ fs.length + depth) (hdepth' : files.card ≤ fs.length + depth') :
    Loads w e₀ start (runEntry w depth) (runEntry w depth') fs := by
  intro e content after app hread hreach hacc
  induction depth generalizing depth' fs e content after app with
  | zero =>
    have hle := hs.length_le hfiles hreach
    rw [List.length_cons] at hle
    omega
  | succ depth ih =>
    obtain ⟨depth', rfl⟩ : ∃ k, depth' = k + 1 := Nat.exists_eq_add_one_of_ne_zero fun h => by
      have hle := hs.length_le hfiles hreach
      rw [List.length_cons] at hle
      omega
    rw [runEntry, runEntry, hread]
    simp only [runContent_eq_runRemaining]
    obtain ⟨hreached, hacc', heq⟩ := @runRemaining_reached _ w e₀ start (runEntry w depth) (runEntry w depth') hs
      ⟨e, .all w e content, after⟩ fs
      (fun r => ih (by rw [List.length_cons]; omega) (by rw [List.length_cons]; omega))
      (fun e' hnone app => ⟨runEntry_of_not_read hnone _ _, runEntry_of_not_read hnone _ _⟩)
      { app with rest := { app.rest with reached := e :: app.rest.reached } } hreach
      ⟨hacc.ended, fun x hx => by
        rcases List.mem_cons.1 hx with rfl | hx
        · exact .inr List.mem_cons_self
        · exact (hacc.applied x hx).imp_right (List.mem_cons_of_mem _)⟩
    rw [heq]
    refine ⟨⟨hreached, ⟨hacc'.ended, fun x hx => ?_⟩⟩, rfl⟩
    rcases hacc'.applied x hx with hx | hx
    · exact .inl (List.mem_cons_of_mem _ hx)
    · rcases List.mem_cons.1 hx with rfl | hx
      · exact .inl List.mem_cons_self
      · exact .inr hx

/-- A file that a line of another loads in some state. -/
def Requests (w : World σ) (e : Entry) (content : Chars) (e' : Entry) : Prop :=
  ∃ act ∈ entryActs w e content, ∃ app before after, act app = .load e' before after

/-- A file that exists and is loaded by a line of another, in some state. -/
def Includes (w : World σ) (e e' : Entry) : Prop :=
  (w.read e'.path).isSome ∧ ∃ content, w.read e.path = some content ∧ Requests w e content e'

/-- Nothing panics in any state: no line of a file, and no condition. -/
def NoPanic (w : World σ) : Prop :=
  (∀ e content, w.read e.path = some content → ∀ act ∈ entryActs w e content, ∀ app, act app ≠ .panic) ∧
    ∀ condition app, (w.expandFormat condition app).isSome

/-- What is left is a part of a file. -/
def Remaining.IsPart (w : World σ) (e : Entry) (content : Chars) : Remaining σ → Prop
  | .lines ls _ => e.kind = .conf ∧ ls <:+ configLines content
  | .acts as => as <:+ entryActs w e content

theorem Remaining.isPart_all (e : Entry) (content : Chars) :
    (Remaining.all w e content).IsPart w e content := by
  rw [Remaining.all]
  cases hkind : e.kind with
  | conf => exact ⟨hkind, List.suffix_refl _⟩
  | tmux | ps1 => exact List.suffix_refl (entryActs w e content)

/-- A line of a configuration file is one of its acts. -/
theorem mem_entryActs_conf {e : Entry} {content : Chars} (hkind : e.kind = .conf) {c : Chars}
    (hc : .command c ∈ configLines content) :
    (fun app => lineAct w (expandLine c app) app) ∈ entryActs w e content := by
  rw [entryActs, hkind]
  exact List.mem_filterMap.2 ⟨_, hc, rfl⟩

/-- What comes next is done without a panic, or it is one of the acts of the file. -/
theorem Remaining.IsPart.next (hpanic : NoPanic w) {e : Entry} {content : Chars} {r r' : Remaining σ}
    (h : r.IsPart w e content) {app : App σ} {act : Act σ} (hnext : r.next w app = some (act, r')) :
    r'.IsPart w e content ∧ ((∃ a, act = .done a) ∨ ∃ f ∈ entryActs w e content, f app = act) := by
  cases r with
  | lines ls ifStack =>
    cases ls with
    | nil => cases hnext
    | cons l ls =>
      cases hnext
      refine ⟨⟨h.1, (List.suffix_cons l ls).trans h.2⟩, ?_⟩
      cases l with
      | command c =>
        rw [lineNext]
        dsimp only
        split
        · exact .inr ⟨_, mem_entryActs_conf h.1 (h.2.subset List.mem_cons_self), rfl⟩
        · exact .inl ⟨_, rfl⟩
      | skip | elseLine | endifLine | hidden | ifLine | elifLine =>
        simp only [lineNext]
        exact .inl ⟨_, if_pos ((Option.all_eq_true _ _).2 fun c _ => hpanic.2 c app)⟩
  | acts as =>
    cases as with
    | nil => cases hnext
    | cons act as =>
      cases hnext
      exact ⟨(List.suffix_cons act as).trans h, .inr ⟨act, h.subset List.mem_cons_self, rfl⟩⟩

/-- Every open file is loaded by the one below it, and what is left of it is a part of it. -/
def Linked (w : World σ) : List (OpenFile σ) → Prop
  | [] => True
  | f :: fs => (∃ content, w.read f.entry.path = some content ∧ f.remaining.IsPart w f.entry content) ∧
    (∀ g ∈ fs, TransGen (Includes w) g.entry f.entry) ∧ Linked w fs

theorem Reached.linked (hpanic : NoPanic w) {fs : List (OpenFile σ)} {app : App σ} (h : Reached w e₀ start fs app) :
    Linked w fs := by
  induction h with
  | @opened content hread =>
    exact ⟨⟨content, hread, Remaining.isPart_all e₀ content⟩, List.forall_mem_nil _, trivial⟩
  | done _ hnext ih | missing _ hnext _ ih =>
    obtain ⟨⟨content, hread, hpart⟩, hbelow⟩ := ih
    exact ⟨⟨content, hread, (hpart.next hpanic hnext).1⟩, hbelow⟩
  | @load f fs app before r e after content' _ hnext hread' ih =>
    obtain ⟨⟨content, hread, hpart⟩, hbelow⟩ := ih
    obtain ⟨hpart', hact⟩ := hpart.next hpanic hnext
    have hincludes : Includes w f.entry e := by
      refine ⟨Option.isSome_of_eq_some hread', content, hread, ?_⟩
      rcases hact with ⟨a, ha⟩ | ⟨act, hmem, hact⟩
      · cases ha
      · exact ⟨act, hmem, app, before, after, hact⟩
    refine ⟨⟨content', hread', Remaining.isPart_all e content'⟩, fun g hg => ?_, ⟨content, hread, hpart'⟩, hbelow⟩
    rcases List.mem_cons.1 hg with rfl | hg
    · exact .single hincludes
    · exact (hbelow.1 g hg).tail hincludes
  | closed _ _ ih => exact ih.2.2

theorem Linked.nodup (hacyclic : ∀ e, ¬TransGen (Includes w) e e) {fs : List (OpenFile σ)} (h : Linked w fs) :
    (fs.map OpenFile.entry).Nodup := by
  induction fs with
  | nil => exact List.nodup_nil
  | cons f fs ih =>
    refine List.nodup_cons.2 ⟨fun hmem => ?_, ih h.2.2⟩
    obtain ⟨g, hg, hentry⟩ := List.mem_map.1 hmem
    exact hacyclic f.entry (by simpa only [hentry] using h.2.1 g hg)

/-- Where no file includes itself in any state, directly or through others, none is loaded while it is
open. -/
theorem harmless_of_acyclic (hacyclic : ∀ e, ¬TransGen (Includes w) e e) (hpanic : NoPanic w) :
    Harmless w e₀ start where
  nodup h := (h.linked hpanic).nodup hacyclic
  goesOn {f fs app} h r hnext := by
    obtain ⟨⟨content, hread, hpart⟩, -⟩ := h.linked hpanic
    rcases (hpart.next hpanic hnext).2 with ⟨a, ha⟩ | ⟨act, hmem, hact⟩
    · cases ha
    · exact hpanic.1 f.entry content hread act hmem app hact

/-- The application before anything is loaded. -/
def fresh (app : App σ) : App (Load σ) := ⟨app.environment, ⟨app.rest, [], [], true⟩⟩

/-- A load that went on to its end, with every file it reached applied. -/
def Ended (app : App (Load σ)) : Prop :=
  app.rest.ended = true ∧ ∀ x ∈ app.rest.reached, x ∈ app.rest.applied

/-- The files, each as whatever it may be read as. -/
def entries (files : Finset Chars) : Finset Entry :=
  (files ×ˢ {Kind.conf, Kind.tmux, Kind.ps1}).image fun p => ⟨p.2, p.1⟩

theorem mem_entries {files : Finset Chars} {e : Entry} (h : e.path ∈ files) : e ∈ entries files := by
  obtain ⟨kind, path⟩ := e
  refine Finset.mem_image.2 ⟨(path, kind), Finset.mem_product.2 ⟨h, ?_⟩, rfl⟩
  cases kind <;> simp

theorem card_entries_le (files : Finset Chars) : (entries files).card ≤ 3 * files.card := by
  refine Finset.card_image_le.trans ?_
  rw [Finset.card_product, mul_comm]
  exact Nat.mul_le_mul_right _ (by decide)

/-- If no file is loaded while it is open and nothing panics, then a load ends with at most three times
as many loads open at once as there are files, and every file that is reached is applied. -/
theorem loading_ends (w : World σ) (files : Finset Chars) (hfiles : ∀ p, (w.read p).isSome → p ∈ files)
    (start : App σ) :
    (∀ e, Harmless w e start → Ended (runEntry w (3 * files.card) e (fresh start)) ∧
      ((w.read e.path).isSome → e ∈ (runEntry w (3 * files.card) e (fresh start)).rest.applied) ∧
      ∀ depth, 3 * files.card ≤ depth →
        runEntry w depth e (fresh start) = runEntry w (3 * files.card) e (fresh start)) ∧
    ∀ path e before after, sourceFile w path start = .load e before after → Harmless w e before →
      Ended (perform (runEntry w (3 * files.card)) (sourceFile w path) (fresh start)) := by
  have hentries (e : Entry) (hread : (w.read e.path).isSome) : e ∈ entries files :=
    mem_entries (hfiles e.path hread)
  have hcard {depth : ℕ} (hdepth : 3 * files.card ≤ depth) : (entries files).card ≤ 0 + depth := by
    rw [Nat.zero_add]
    exact (card_entries_le files).trans hdepth
  have hloads {e : Entry} {start : App σ} (hs : Harmless w e start) {content : Chars}
      (hread : w.read e.path = some content) {depth : ℕ} (hdepth : 3 * files.card ≤ depth) :=
    @runEntry_returned _ w e start hs _ hentries _ _ [] (hcard le_rfl) (hcard hdepth) e content id (fresh start) hread
      (.opened hread) ⟨rfl, fun x hx => by cases hx⟩
  have hended {e : Entry} {start : App σ} (hs : Harmless w e start) :
      Ended (runEntry w (3 * files.card) e (fresh start)) := by
    cases hread : w.read e.path with
    | none =>
      rw [runEntry_of_not_read hread]
      exact ⟨rfl, fun x hx => by cases hx⟩
    | some content =>
      have hacc := (hloads hs hread le_rfl).1.2
      exact ⟨hacc.ended, fun x hx => (hacc.applied x hx).resolve_right fun h => by cases h⟩
  refine ⟨fun e hs => ⟨hended hs, fun hread => ?_, fun depth hdepth => ?_⟩, fun path e before after hload hs => ?_⟩
  · obtain ⟨content, hcontent⟩ := Option.isSome_iff_exists.1 hread
    have hpos := hs.length_le hentries (.opened hcontent)
    obtain ⟨depth, hdepth⟩ := Nat.exists_eq_add_one_of_ne_zero (Nat.ne_of_gt (hpos.trans (card_entries_le files)))
    rw [hdepth, runEntry, hcontent]
    exact List.mem_cons_self
  · cases hread : w.read e.path with
    | none => rw [runEntry_of_not_read hread, runEntry_of_not_read hread]
    | some content => exact (hloads hs hread hdepth).2
  · have hbefore : raise (fresh start) before = fresh before := rfl
    have hstart : lower (fresh start) = start := rfl
    rw [perform, hstart, hload]
    dsimp only
    rw [hbefore]
    exact ⟨(hended hs).1, (hended hs).2⟩

/-- A world of files in which nothing else happens. -/
def filesOnly (read : Chars → Option Chars) : World Unit where
  read := read
  pathExists p := (read p).isSome
  isFile p := (read p).isSome
  isDir _ := false
  filesIn _ := []
  parent _ := []
  fileName p := p
  isAlphanumeric := Char.isAlphanum
  homeDir _ := []
  xdgConfigHome _ := none
  currentConfigFile _ := []
  setCurrentConfigFile _ app := app
  expandFormat t app := some (t, app)
  lookupOption _ _ := none
  setOption _ _ app := app
  setVar _ _ app := some app
  vectorLimit := 2 ^ 60
  pushPendingPluginScript _ app := app
  conditionSucceeds _ app := (false, app)
  spawn _ app := app
  otherCommand _ app := app

theorem sourceFile_filesOnly (read : Chars → Option Chars) (p : Char) (hp : p = 'a' ∨ p = 'b')
    (app : App Unit) : sourceFile (filesOnly read) [p] app = .load ⟨.conf, [p]⟩ app fun app => app := by
  have hpath : xdgFallback (filesOnly read) [p] app = [p] := by
    rw [xdgFallback]
    rcases hp with rfl | rfl <;> split <;> rfl
  rcases hp with rfl | rfl
  · rw [sourceFile, if_neg (by decide)]
    change loadAs (filesOnly read) .conf (xdgFallback (filesOnly read) ['a'] app) app id = _
    rw [hpath]
    rfl
  · rw [sourceFile, if_neg (by decide)]
    change loadAs (filesOnly read) .conf (xdgFallback (filesOnly read) ['b'] app) app id = _
    rw [hpath]
    rfl

theorem lineAct_filesOnly (read : Chars → Option Chars) (p : Char) (hp : p = 'a' ∨ p = 'b')
    (app : App Unit) : lineAct (filesOnly read) (text "source-file " ++ [p]) app =
      .load ⟨.conf, [p]⟩ app fun app => app := by
  rcases hp with rfl | rfl
  · rw [lineAct, if_neg (by decide), if_neg (by decide), if_pos (by decide)]
    exact sourceFile_filesOnly read 'a' (.inl rfl) app
  · rw [lineAct, if_neg (by decide), if_neg (by decide), if_pos (by decide)]
    exact sourceFile_filesOnly read 'b' (.inr rfl) app

/-- Two files, of which the first sources the second. -/
theorem loading_ends_two :
    let w := filesOnly fun p =>
      if p = ['a'] then some (text "source-file b") else if p = ['b'] then some (text "# end") else none
    Ended (perform (runEntry w 6) (sourceFile w ['a']) (fresh ⟨fun _ => none, ()⟩)) := by
  intro w
  have hread (p content : Chars) (h : w.read p = some content) :
      p = ['a'] ∧ content = text "source-file b" ∨ p = ['b'] ∧ content = text "# end" := by
    simp only [w, filesOnly] at h
    split at h
    · next hp => exact .inl ⟨hp, (Option.some.inj h).symm⟩
    · split at h
      · next hp => exact .inr ⟨hp, (Option.some.inj h).symm⟩
      · cases h
  have hacts (e : Entry) (content : Chars) (h : w.read e.path = some content)
      (act : App Unit → Act Unit) (hact : act ∈ entryActs w e content) (app : App Unit) :
      act app = .done app ∨
        e.path = ['a'] ∧ act app = .load ⟨.conf, ['b']⟩ app fun app => app := by
    obtain ⟨kind, path⟩ := e
    rcases hread path content h with ⟨rfl, rfl⟩ | ⟨rfl, rfl⟩
    · cases kind with
      | conf =>
        have hlines : configLines (text "source-file b") = [.command (text "source-file b")] := by
          decide
        rw [entryActs, hlines] at hact
        obtain rfl := List.mem_singleton.1 hact
        exact .inr ⟨rfl, lineAct_filesOnly _ 'b' (.inr rfl) app⟩
      | tmux => cases hact
      | ps1 => cases hact
    · cases kind with
      | conf =>
        have hlines : configLines (text "# end") = [.command (text "# end")] := by decide
        rw [entryActs, hlines] at hact
        obtain rfl := List.mem_singleton.1 hact
        left
        change lineAct w (text "# end") app = .done app
        rw [lineAct, if_pos (by decide)]
      | tmux => cases hact
      | ps1 => cases hact
  have hincludes {e e' : Entry} (h : Includes w e e') : e.path = ['a'] ∧ e'.path = ['b'] := by
    obtain ⟨-, content, hcontent, act, hact, app, before, after, hload⟩ := h
    rcases hacts e content hcontent act hact app with hdone | ⟨hpath, hload'⟩
    · rw [hload] at hdone
      cases hdone
    · rw [hload] at hload'
      cases hload'
      exact ⟨hpath, rfl⟩
  have hchain {e e' : Entry} (h : TransGen (Includes w) e e') : e.path = ['a'] ∧ e'.path = ['b'] := by
    induction h with
    | single h => exact hincludes h
    | tail _ h ih => exact ⟨ih.1, (hincludes h).2⟩
  have hacyclic (e : Entry) (he : TransGen (Includes w) e e) : False := by
    obtain ⟨ha, hb⟩ := hchain he
    rw [ha] at hb
    exact absurd hb (by decide)
  have hpanic : NoPanic w := by
    refine ⟨fun e content h act hact app hstop => ?_, fun _ _ => rfl⟩
    rcases hacts e content h act hact app with hdone | ⟨-, hload⟩
    · rw [hdone] at hstop
      cases hstop
    · rw [hload] at hstop
      cases hstop
  exact (loading_ends w {['a'], ['b']} (fun p hp => by
    obtain ⟨content, hcontent⟩ := Option.isSome_iff_exists.1 hp
    rcases hread p content hcontent with ⟨rfl, -⟩ | ⟨rfl, -⟩ <;> decide) ⟨fun _ => none, ()⟩).2 ['a'] _ _ _
    (sourceFile_filesOnly _ 'a' (.inl rfl) _) (harmless_of_acyclic hacyclic hpanic)

/-- A file that sources itself: no depth is enough for its load. -/
theorem loading_itself_never_ends :
    let w := filesOnly fun p => if p = ['a'] then some (text "source-file a") else none
    (∀ p, (w.read p).isSome → p ∈ ({['a']} : Finset Chars)) ∧
      ∀ depth app, (runEntry w depth ⟨.conf, ['a']⟩ app).rest.ended = false := by
  intro w
  have hlines : configLines (text "source-file a") = [.command (text "source-file a")] := by
    decide
  refine ⟨fun p hp => ?_, fun depth app => ?_⟩
  · by_cases h : p = ['a']
    · simp [h]
    · simp [w, filesOnly, h] at hp
  · induction depth generalizing app with
    | zero => rfl
    | succ depth ih =>
      have hread : w.read ['a'] = some (text "source-file a") := rfl
      have hload (app : App (Load Unit)) :
          runCommand (loadingCommands w (runEntry w depth)) (text "source-file a") app =
            perform (runEntry w depth) (fun app => .load ⟨.conf, ['a']⟩ app fun app => app) app := by
        rw [runCommand]
        change perform (runEntry w depth) (fun app => lineAct w (expandLine (text "source-file a") app) app) app = _
        congr 1
        funext app
        exact lineAct_filesOnly _ 'a' (.inl rfl) app
      rw [runEntry, hread]
      simp only [runContent, parseConfigContent, hlines, runLines, step]
      rw [if_pos (show active [] = true from rfl), hload]
      exact ih _

end Winsmux.Config
