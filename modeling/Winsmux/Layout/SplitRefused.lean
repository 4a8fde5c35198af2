import Winsmux.Layout.Effect

/-!
# A split that is refused

The two requests that split the active pane, as the server handles them: the split is
tried, its error is only reported, and the handler goes on to set the shares and to take
the focus back as if the new pane were there.
-/
namespace Winsmux.Layout
open PathTree Json

/-- Why no shell could be started. -/
inductive SpawnError where
  | openpty (e : Text)
  | spawnShell (e : Text)
  | cloneReader (e : Text)
  | takeWriter (e : Text)

/-- Why a pane was not split. -/
inductive SplitError where
  | tooShort (rows : ℕ)
  | tooNarrow (cols : ℕ)
  | spawn (e : SpawnError)

def minSplitRows : ℕ := 4

def minSplitCols : ℕ := 10

def SpawnError.message : SpawnError → Text
  | .openpty e => utf8 "openpty error: " ++ e
  | .spawnShell e => utf8 "spawn shell error: " ++ e
  | .cloneReader e => utf8 "clone reader error: " ++ e
  | .takeWriter e => utf8 "take writer error: " ++ e

def SplitError.message : SplitError → Text
  | .tooShort rows =>
    utf8 "pane too small to split vertically (" ++ decimal rows ++ utf8 " rows, need " ++
      decimal (minSplitRows * 2 + 1) ++ utf8 ")"
  | .tooNarrow cols =>
    utf8 "pane too small to split horizontally (" ++ decimal cols ++ utf8 " cols, need " ++
      decimal (minSplitCols * 2 + 1) ++ utf8 ")"
  | .spawn e => e.message

/-- The pane whose size a split goes by: an index past the children goes to the last. -/
def activePane : Node → List ℕ → Except Panic (Option Pane)
  | .leaf p, _ => .ok (some p)
  | .split _ _, [] => .ok none
  | .split _ children, i :: path =>
    match children[min i (children.length - 1)]? with
    | some c => activePane c path
    | none => .error .childIndex

/-- What a split finds outside: the rows and columns of each pane, and what comes of
starting a shell. -/
structure Outside where
  paneSize : ℕ → ℕ × ℕ
  spawn : Option SpawnError

/-- Room for two panes and the line between them. -/
def tooSmall (o : Outside) (kind : LayoutKind) (p : Pane) : Option SplitError :=
  let (rows, cols) := o.paneSize p.id
  match kind with
  | .vertical => if rows < minSplitRows * 2 + 1 then some (.tooShort rows) else none
  | .horizontal => if cols < minSplitCols * 2 + 1 then some (.tooNarrow cols) else none

/-- What a request for a split asks. -/
structure SplitRequest where
  kind : LayoutKind
  /-- Neither a command nor a start directory is given. -/
  defaultShell : Bool
  detached : Bool
  size : Option (ℕ × Bool)
  /-- How the next warm pane comes out afterwards. -/
  warm : WarmSpawn

namespace Server

def splitActiveWithCommand (o : Outside) (r : SplitRequest) (s : Server) :
    Except Panic (Option SplitError × Server) := do
  let w ← s.active
  let pane ← activePane w.root w.activePath
  match pane.bind (tooSmall o r.kind) with
  | some e => .ok (some e, s)
  | none =>
    -- a warm pane is taken as it is, only a cold shell can fail to start
    match r.defaultShell && s.warmPane.isSome, o.spawn with
    | false, some e => .ok (some (.spawn e), s)
    | _, _ => do
      let s ← s.splitActive r.kind r.defaultShell
      .ok (none, s)

/-- The handler of both requests; `reply` is what the client is sent. -/
def handleSplit (reply : Option SplitError → Server → Text) (o : Outside) (r : SplitRequest)
    (s : Server) : Except Panic (Text × Server) := do
  let s ← s.unzoomIfZoomed
  let w ← s.active
  let prevPath := w.activePath
  let (e, s) ← s.splitActiveWithCommand o r
  let s ←
    (match r.size with
    | none => .ok s
    | some (val, isPct) =>
      s.onActive (setSplitPercent prevPath (splitPercent r.kind s.lastWindowArea val isPct)))
  let text := reply e s
  let s ←
    (if r.detached then s.mapActive (revertFocus prevPath)
    else .ok { s with tempFocusRestore := none })
  .ok (text, s.replenish r.warm)

/-- The reply says whether the split was refused. -/
def splitWindowRequest : Outside → SplitRequest → Server → Except Panic (Text × Server) :=
  handleSplit fun e _ =>
    match e with
    | some e => utf8 "winsmux: split-window: " ++ e.message
    | none => []

/-- The reply is the format expanded for the active window, refused or not. -/
def splitWindowPrintRequest (expand : Server → Text) :
    Outside → SplitRequest → Server → Except Panic (Text × Server) :=
  handleSplit fun _ s => expand s

end Server

/-- What of a window a refused split must leave alone. -/
def Window.panesAndFocus (w : Window) : Node × List ℕ × List ℕ := (w.root, w.activePath, w.paneMru)

/-- Every window has the panes, the shares and the focus that it had. -/
def Undisturbed (s s' : Server) : Prop :=
  s'.windows.map Window.panesAndFocus = s.windows.map Window.panesAndFocus

/-- Where a split stands at the active path its first two shares are those asked for. -/
def SharesStand (area : Rect) (r : SplitRequest) (w : Window) : Prop :=
  ∀ val isPct, r.size = some (val, isPct) → ∀ a, labelAt w.root w.activePath = some a →
    a.sizes.take 2 = [100 - splitPercent r.kind area val isPct, splitPercent r.kind area val isPct]

theorem setSplitPercent_of_take {path : List ℕ} {pct : ℕ} {w : Window}
    (h : ∀ a, labelAt w.root path = some a → a.sizes.take 2 = [100 - pct, pct]) :
    setSplitPercent path pct w = .ok w := by
  rw [setSplitPercent]
  split
  · next a children ha =>
    obtain ⟨rest, hrest⟩ : ∃ rest, a.sizes = (100 - pct) :: pct :: rest :=
      ⟨a.sizes.drop 2, by rw [← List.take_append_drop 2 a.sizes, h a (labelAt_eq_some.2 ⟨_, ha⟩)]; simp⟩
    rw [if_neg (by simp [hrest])]
    congr 1
    rw [relabelAt_of_eq]
    intro b hb
    obtain rfl : a = b := Option.some.inj ((labelAt_eq_some.2 ⟨_, ha⟩).symm.trans hb)
    rw [Split.withSizes, hrest, List.set_cons_zero, List.set_cons_succ, List.set_cons_zero, ← hrest]
  · rfl

theorem take_of_setSplitPercent {path : List ℕ} {pct : ℕ} {w w' : Window}
    (h : setSplitPercent path pct w = .ok w') (hroot : w'.root = w.root) {a : Split}
    (ha : labelAt w.root path = some a) : a.sizes.take 2 = [100 - pct, pct] := by
  obtain ⟨children, hat⟩ := labelAt_eq_some.1 ha
  simp only [setSplitPercent, hat] at h
  split at h
  · contradiction
  · next hlen =>
    rw [← Except.ok.inj h] at hroot
    have hsizes := congrArg (labelAt · path) hroot
    simp only [labelAt_relabelAt, ha, if_true, Option.map_some, Option.some_inj] at hsizes
    rw [← hsizes, Split.withSizes]
    rcases hs : a.sizes with _ | ⟨x, _ | ⟨y, rest⟩⟩
    · simp [hs] at hlen
    · simp [hs] at hlen
    · rfl

namespace Server
variable {s s₀ s₁ : Server} {w : Window} {o : Outside} {r : SplitRequest} {e : SplitError}

/-- A refused split touches nothing. -/
theorem splitActiveWithCommand_refused (h : s.splitActiveWithCommand o r = .ok (some e, s₁)) :
    s₁ = s := by
  obtain ⟨w, hw, h⟩ := bind_eq_ok.1 h
  obtain ⟨pane, hpane, h⟩ := bind_eq_ok.1 h
  split at h
  · exact (Prod.mk.inj (Except.ok.inj h)).2.symm
  · split at h
    · exact (Prod.mk.inj (Except.ok.inj h)).2.symm
    · obtain ⟨t, -, h⟩ := bind_eq_ok.1 h
      simp at h

/-- The active window after the steps that follow a refusal. -/
def refusedEdit (area : Rect) (r : SplitRequest) (w : Window) : Except Panic Window := do
  let w' ←
    (match r.size with
    | none => .ok w
    | some (val, isPct) => setSplitPercent w.activePath (splitPercent r.kind area val isPct) w)
  .ok (if r.detached then revertFocus w.activePath w' else w')

theorem handleSplit_refused {reply : Option SplitError → Server → Text}
    (hzoom : s.unzoomIfZoomed = .ok s₀) (hw : s₀.active = .ok w)
    (he : s₀.splitActiveWithCommand o r = .ok (some e, s₁)) (windows : List Window) :
    (∃ text s', s.handleSplit reply o r = .ok (text, s') ∧ s'.windows = windows) ↔
      ∃ w', refusedEdit s₀.lastWindowArea r w = .ok w' ∧
        windows = s₀.windows.set s₀.activeIdx w' := by
  obtain rfl := splitActiveWithCommand_refused he
  have hstart := WindowNow.start hw
  rw [handleSplit, hzoom, ok_bind, hw, ok_bind, he, ok_bind, refusedEdit]
  cases hsize : r.size with
  | none =>
    cases hdet : r.detached with
    | false => simp [hstart.windows.symm, eq_comm]
    | true =>
      simp only [ok_bind, if_true, mapActive, onActive, hw]
      simp [setActive, eq_comm]
  | some size =>
    obtain ⟨val, isPct⟩ := size
    simp only [onActive, hw, ok_bind]
    cases hset : setSplitPercent w.activePath (splitPercent r.kind s₁.lastWindowArea val isPct) w with
    | error p => simp
    | ok w' =>
      have hw' : (s₁.setActive w').active = .ok w' := by
        rw [active_eq_ok, setActive, List.getElem?_set_self hstart.lt]
      cases hdet : r.detached with
      | false => simp [setActive, eq_comm]
      | true =>
        simp only [ok_bind, if_true, mapActive, onActive, hw']
        simp [setActive, eq_comm]

/-- What follows a refusal leaves the panes and the focus alone just where the focus is
not to be taken back and the shares stand. -/
theorem refusedEdit_same_iff {area : Rect} :
    (∃ w', refusedEdit area r w = .ok w' ∧ w'.panesAndFocus = w.panesAndFocus) ↔
      r.detached = false ∧ SharesStand area r w := by
  rw [refusedEdit]
  constructor
  · intro ⟨w', hw', hsame⟩
    simp only [Window.panesAndFocus, Prod.mk.injEq] at hsame
    obtain ⟨v, hv, hw'⟩ := bind_eq_ok.1 hw'
    cases hdet : r.detached with
    | true =>
      -- the focus has gone to the first child of what stands at the path
      rw [hdet, if_pos rfl] at hw'
      rw [← Except.ok.inj hw'] at hsame
      exact absurd hsame.2.1 (by simp [revertFocus])
    | false =>
      rw [hdet] at hw'
      obtain rfl : v = w' := Except.ok.inj hw'
      refine ⟨rfl, fun val isPct hsize a ha => ?_⟩
      rw [hsize] at hv
      exact take_of_setSplitPercent hv hsame.1 ha
  · intro ⟨hdet, hstand⟩
    refine ⟨w, ?_, rfl⟩
    cases hsize : r.size with
    | none => simp [hdet]
    | some size =>
      obtain ⟨val, isPct⟩ := size
      simp only [setSplitPercent_of_take fun a ha => hstand val isPct hsize a ha, ok_bind, hdet]
      rfl

theorem undisturbed_iff (hw : s.active = .ok w) {w' : Window} {t : Server}
    (ht : t.windows = s.windows.set s.activeIdx w') :
    Undisturbed s t ↔ w'.panesAndFocus = w.panesAndFocus := by
  obtain ⟨hi, hget⟩ := List.getElem?_eq_some_iff.1 (active_eq_ok.1 hw)
  rw [Undisturbed, ht, List.map_set]
  constructor
  · intro h
    have := congrArg (·[s.activeIdx]?) h
    simpa [hi, hget] using this
  · intro h
    rw [h, ← hget, ← List.getElem_map Window.panesAndFocus (h := by simpa using hi), List.set_getElem_self]

theorem handleSplit_undisturbed_iff {reply : Option SplitError → Server → Text}
    (hzoom : s.unzoomIfZoomed = .ok s₀) (hw : s₀.active = .ok w)
    (he : s₀.splitActiveWithCommand o r = .ok (some e, s₁)) :
    (∃ text s', s.handleSplit reply o r = .ok (text, s') ∧ Undisturbed s₀ s') ↔
      r.detached = false ∧ SharesStand s₀.lastWindowArea r w := by
  rw [← refusedEdit_same_iff]
  constructor
  · intro ⟨text, s', hs', hsame⟩
    obtain ⟨w', hw', hwin⟩ := (handleSplit_refused hzoom hw he _).1 ⟨text, s', hs', rfl⟩
    exact ⟨w', hw', (undisturbed_iff hw hwin).1 hsame⟩
  · intro ⟨w', hw', hsame⟩
    obtain ⟨text, s', hs', hwin⟩ := (handleSplit_refused hzoom hw he _).2 ⟨w', hw', rfl⟩
    exact ⟨text, s', hs', (undisturbed_iff hw hwin).2 hsame⟩

end Server

/-- After a split was refused, both handlers leave every window's panes, shares and focus
alone just where the focus is not to be taken back and the shares that stand at the active
path are those asked for. -/
theorem refused_split_undisturbed_iff {s s₀ s₁ : Server} {w : Window} {o : Outside} {r : SplitRequest}
    {e : SplitError} (hzoom : s.unzoomIfZoomed = .ok s₀) (hw : s₀.active = .ok w)
    (he : s₀.splitActiveWithCommand o r = .ok (some e, s₁)) (expand : Server → Text) :
    ((∃ text s', s.splitWindowRequest o r = .ok (text, s') ∧ Undisturbed s₀ s') ↔
      r.detached = false ∧ SharesStand s₀.lastWindowArea r w) ∧
    ((∃ text s', s.splitWindowPrintRequest expand o r = .ok (text, s') ∧ Undisturbed s₀ s') ↔
      r.detached = false ∧ SharesStand s₀.lastWindowArea r w) :=
  ⟨Server.handleSplit_undisturbed_iff hzoom hw he, Server.handleSplit_undisturbed_iff hzoom hw he⟩

/-- Panes of eight rows and of the terminal's columns. -/
def lowPanes : Outside := ⟨fun _ => (8, 80), none⟩

theorem refused_split_undisturbed_iff_low :
    (∃ text s', terminal.splitWindowRequest lowPanes ⟨.vertical, true, false, some (30, true), .refused⟩ =
      .ok (text, s') ∧ Undisturbed terminal s') ∧
    ¬ ∃ text s', terminal.splitWindowPrintRequest (fun _ => []) lowPanes
      ⟨.vertical, true, true, none, .refused⟩ = .ok (text, s') ∧ Undisturbed terminal s' := by
  have hw : terminal.active = .ok ⟨1, .leaf ⟨1, false⟩, [], 0, [1], none⟩ := rfl
  constructor
  · refine (refused_split_undisturbed_iff rfl hw (e := SplitError.tooShort 8) rfl fun _ => []).1.2 ⟨rfl, ?_⟩
    intro val isPct _ a ha
    simp at ha
  · rw [(refused_split_undisturbed_iff rfl hw (e := SplitError.tooShort 8) rfl fun _ => []).2]
    simp

/-- A detached split of a pane too small for it moves the focus below the pane. -/
theorem refused_split_moves_focus :
    ¬ ∀ (s s₀ s₁ : Server) (o : Outside) (r : SplitRequest) (e : SplitError),
      (session terminal).Reachable s → s.unzoomIfZoomed = .ok s₀ →
      s₀.splitActiveWithCommand o r = .ok (some e, s₁) →
      ∃ text s', s.splitWindowRequest o r = .ok (text, s') ∧ Undisturbed s₀ s' := by
  intro h
  obtain ⟨text, s', hs', hsame⟩ :=
    h _ _ _ lowPanes ⟨.vertical, true, true, none, .refused⟩ (.tooShort 8) .init rfl rfl
  have hwin : s'.windows.map Window.activePath = [[0]] := by
    rw [← (Prod.mk.inj (Except.ok.inj hs')).2]
    rfl
  have hpath := congrArg (List.map fun v => v.2.1) hsame
  rw [List.map_map] at hpath
  have : [[0]] = ([[]] : List (List ℕ)) := hwin.symm.trans hpath
  contradiction

end Winsmux.Layout
