import Winsmux.Session.Files
import Winsmux.Transition

/-!
# Names of sessions

A server is found through its port file and let in by its key file, both named by its
base. A rename moves the two files of one server; whether another server's files have
those names is not looked at. What a claim does beside that, for its working directory,
configuration and the next warm server, is left out.
-/
namespace Winsmux.Session
open Json Transition

structure App where
  socketName : Option Text
  sessionName : Text
  controlPort : Option ℕ
  sessionKey : Text

namespace App

/-- The base of a session name, with the socket name in front. -/
def baseOf (app : App) (name : Text) : Text :=
  match app.socketName with
  | some sn => sn ++ utf8 "__" ++ name
  | none => name

def portFileBase (app : App) : Text := app.baseOf app.sessionName

end App

/-- The port and key files under the new name. -/
def renameFiles (oldBase newBase : Text) (port : ℕ) (files : Files) : Files :=
  let files := (files.removeFile (portFile oldBase)).write (portFile newBase) (decimal port)
  match files (keyFile oldBase) with
  | some key => (files.removeFile (keyFile oldBase)).write (keyFile newBase) key
  | none => files

/-- Nothing is written by a server that is not bound yet. -/
def writeCurrentSessionRegistry (app : App) (record : Text) (files : Files) : Files :=
  match app.controlPort with
  | some _ => writeSessionRegistry app.portFileBase record files
  | none => files

def renameSession (name record : Text) (app : App) (files : Files) : App × Files :=
  let oldBase := app.portFileBase
  let newBase := app.baseOf name
  let files :=
    match app.controlPort with
    | some port => renameFiles oldBase newBase port files
    | none => files
  let files := removeSessionRegistryFiles oldBase files
  let app := { app with sessionName := name }
  (app, writeCurrentSessionRegistry app record files)

/-- A warm server is claimed by a rename that is answered. -/
def claimSession (name record : Text) (app : App) (files : Files) : App × Files :=
  renameSession name record app files

/-- A request, with the record that is written for the renamed session. -/
inductive Request where
  | rename (name record : Text)
  | claim (name record : Text)

def Request.name : Request → Text
  | rename name _ => name
  | claim name _ => name

def Request.handle : Request → App → Files → App × Files
  | rename name record => renameSession name record
  | claim name record => claimSession name record

/-- The running servers and the directory they share. -/
structure World (ι : Type) where
  servers : ι → App
  files : Files

section Servers
variable {ι : Type} [DecidableEq ι]

def World.handle (w : World ι) (i : ι) (req : Request) : World ι where
  servers := Function.update w.servers i (req.handle (w.servers i) w.files).1
  files := (req.handle (w.servers i) w.files).2

/-- Requests reach the servers in any order. -/
def requests (w : World ι) : System (World ι) (ι × Request) where
  init := w
  enabled _ _ := True
  next w l := w.handle l.1 l.2

/-- Each server is found under its own base: the files there hold its port and its key. -/
structure Named (w : World ι) : Prop where
  distinct : ∀ i j, (w.servers i).portFileBase = (w.servers j).portFileBase → i = j
  port : ∀ i, ∃ port, (w.servers i).controlPort = some port ∧
    w.files (portFile (w.servers i).portFileBase) = some (decimal port)
  key : ∀ i, w.files (keyFile (w.servers i).portFileBase) = some (w.servers i).sessionKey

/-- No other server has the base that the request asks for. -/
def Free (w : World ι) (l : ι × Request) : Prop :=
  ∀ j, j ≠ l.1 → (w.servers j).portFileBase ≠ (w.servers l.1).baseOf l.2.name

end Servers

theorem renameFiles_port {oldBase newBase b : Text} {port : ℕ} {files : Files} :
    renameFiles oldBase newBase port files (portFile b) =
      if b = newBase then some (decimal port) else if b = oldBase then none
      else files (portFile b) := by
  have hmoved : (files.removeFile (portFile oldBase)).write (portFile newBase) (decimal port) (portFile b) =
      if b = newBase then some (decimal port) else if b = oldBase then none
      else files (portFile b) := by
    simp only [Files.write_apply, Files.removeFile_apply, portFile_inj]
  rw [renameFiles]
  generalize (files.removeFile (portFile oldBase)).write (portFile newBase) (decimal port) = moved at hmoved
  cases moved (keyFile oldBase) with
  | some key =>
    simp only [Files.write_apply, Files.removeFile_apply, if_neg (portFile_ne_keyFile _ _)]
    exact hmoved
  | none => exact hmoved

theorem renameFiles_key {oldBase newBase b key : Text} {port : ℕ} {files : Files}
    (hkey : files (keyFile oldBase) = some key) :
    renameFiles oldBase newBase port files (keyFile b) =
      if b = newBase then some key else if b = oldBase then none else files (keyFile b) := by
  have hmoved (c : Text) : (files.removeFile (portFile oldBase)).write (portFile newBase) (decimal port)
      (keyFile c) = files (keyFile c) := by
    rw [Files.write_apply, if_neg (portFile_ne_keyFile _ _).symm, Files.removeFile_apply,
      if_neg (portFile_ne_keyFile _ _).symm]
  simp only [renameFiles, hmoved, hkey, Files.write_apply, Files.removeFile_apply, keyFile_inj]

/-- What a rename leaves in the port and key files of every base. -/
theorem handle_spec {req : Request} {app : App} {files : Files} {port : ℕ}
    (hport : app.controlPort = some port)
    (hkey : files (keyFile app.portFileBase) = some app.sessionKey) :
    (req.handle app files).1 = { app with sessionName := req.name } ∧
    ∀ b,
      (req.handle app files).2 (portFile b) =
        (if b = app.baseOf req.name then some (decimal port) else if b = app.portFileBase then none
        else files (portFile b)) ∧
      (req.handle app files).2 (keyFile b) =
        (if b = app.baseOf req.name then some app.sessionKey else if b = app.portFileBase then none
        else files (keyFile b)) := by
  have hrename (name record : Text) : (renameSession name record app files).1 = { app with sessionName := name } ∧
      ∀ b,
        (renameSession name record app files).2 (portFile b) =
          (if b = app.baseOf name then some (decimal port) else if b = app.portFileBase then none
          else files (portFile b)) ∧
        (renameSession name record app files).2 (keyFile b) =
          (if b = app.baseOf name then some app.sessionKey else if b = app.portFileBase then none
          else files (keyFile b)) := by
    refine ⟨rfl, fun b => ⟨?_, ?_⟩⟩
    · simp only [renameSession, writeCurrentSessionRegistry, hport]
      rw [writeSessionRegistry_apply (portFile_ne_registry _ _) (portFile_ne_tmp _ _),
        removeSessionRegistryFiles_apply (portFile_ne_registry _ _) (portFile_ne_tmp _ _), renameFiles_port]
    · simp only [renameSession, writeCurrentSessionRegistry, hport]
      rw [writeSessionRegistry_apply (keyFile_ne_registry _ _) (keyFile_ne_tmp _ _),
        removeSessionRegistryFiles_apply (keyFile_ne_registry _ _) (keyFile_ne_tmp _ _), renameFiles_key hkey]
  cases req with
  | rename name record => exact hrename name record
  | claim name record => exact hrename name record

section Servers
variable {ι : Type} [DecidableEq ι] {w : World ι} {i : ι} {req : Request}

theorem servers_handle_of_ne {j : ι} (h : j ≠ i) : (w.handle i req).servers j = w.servers j :=
  Function.update_of_ne h ..

/-- A request changes nothing of a server but the name of the one it reaches. -/
theorem servers_handle (hw : Named w) :
    (w.handle i req).servers i = { w.servers i with sessionName := req.name } := by
  obtain ⟨port, hport, -⟩ := hw.port i
  rw [World.handle]
  dsimp only
  rw [Function.update_self]
  exact (handle_spec hport (hw.key i)).1

theorem base_handle (hw : Named w) :
    ((w.handle i req).servers i).portFileBase = (w.servers i).baseOf req.name := by
  rw [servers_handle hw]
  rfl

/-- A request keeps the names right exactly where no other server has the base. -/
theorem named_handle_iff (hw : Named w) : Named (w.handle i req) ↔ Free w (i, req) := by
  constructor
  · intro h j hj hbase
    have hne := h.distinct j i
    rw [servers_handle_of_ne hj, base_handle hw] at hne
    exact hj (hne hbase)
  · intro hfree
    obtain ⟨port, hport, -⟩ := hw.port i
    obtain ⟨-, hfiles⟩ := @handle_spec req _ _ _ hport (hw.key i)
    have hother : ∀ j, j ≠ i → (w.servers j).portFileBase ≠ (w.servers i).portFileBase :=
      fun j hj he => hj (hw.distinct j i he)
    refine ⟨fun j k hjk => ?_, fun j => ?_, fun j => ?_⟩
    · by_cases hj : j = i
      · by_cases hk : k = i
        · rw [hj, hk]
        · rw [hj, servers_handle_of_ne hk, base_handle hw] at hjk
          exact absurd hjk.symm (hfree k hk)
      · by_cases hk : k = i
        · rw [hk, servers_handle_of_ne hj, base_handle hw] at hjk
          exact absurd hjk (hfree j hj)
        · rw [servers_handle_of_ne hj, servers_handle_of_ne hk] at hjk
          exact hw.distinct j k hjk
    · by_cases hj : j = i
      · subst hj
        refine ⟨port, ?_, ?_⟩
        · rw [servers_handle hw]
          exact hport
        · rw [base_handle hw]
          exact (hfiles _).1.trans (if_pos rfl)
      · obtain ⟨p, hp, hfile⟩ := hw.port j
        rw [servers_handle_of_ne hj]
        refine ⟨p, hp, ?_⟩
        refine (hfiles _).1.trans ?_
        rw [if_neg (hfree j hj), if_neg (hother j hj), hfile]
    · by_cases hj : j = i
      · subst hj
        rw [base_handle hw, servers_handle hw]
        exact (hfiles _).2.trans (if_pos rfl)
      · rw [servers_handle_of_ne hj]
        refine (hfiles _).2.trans ?_
        rw [if_neg (hfree j hj), if_neg (hother j hj), hw.key j]

/-- In every run whose requests ask for bases that no other server has, each server is found
under its own base, with the port and key it began with; and only such requests keep that. -/
theorem names_stay_unique (hw : Named w) {s : World ι}
    (hs : ((requests w).restrict Free).Reachable s) :
    Named s ∧
    (∀ i, (s.servers i).controlPort = (w.servers i).controlPort ∧
      (s.servers i).sessionKey = (w.servers i).sessionKey) ∧
    ∀ i req, Named (s.handle i req) ↔ Free s (i, req) := by
  have hinv : Named s ∧ ∀ i, (s.servers i).controlPort = (w.servers i).controlPort ∧
      (s.servers i).sessionKey = (w.servers i).sessionKey := by
    refine hs.invariant (P := fun s => Named s ∧ ∀ i,
      (s.servers i).controlPort = (w.servers i).controlPort ∧
        (s.servers i).sessionKey = (w.servers i).sessionKey) ⟨hw, fun i => ⟨rfl, rfl⟩⟩ ?_
    intro s ⟨i, req⟩ _ ⟨hn, hsame⟩ ⟨_, hfree⟩
    refine ⟨(named_handle_iff hn).2 hfree, fun j => ?_⟩
    show ((s.handle i req).servers j).controlPort = _ ∧ ((s.handle i req).servers j).sessionKey = _
    by_cases hj : j = i
    · rw [hj, servers_handle hn]
      exact hsame i
    · rw [servers_handle_of_ne hj]
      exact hsame j
  exact ⟨hinv.1, hinv.2, fun i req => named_handle_iff hinv.1⟩

end Servers

/-- Two servers, `a` and `b`. -/
def pair : World Bool where
  servers i := if i then ⟨none, utf8 "b", some 50001, utf8 "k1"⟩ else ⟨none, utf8 "a", some 50000, utf8 "k0"⟩
  files :=
    (((Files.empty.write (portFile (utf8 "a")) (decimal 50000)).write
      (keyFile (utf8 "a")) (utf8 "k0")).write (portFile (utf8 "b")) (decimal 50001)).write
        (keyFile (utf8 "b")) (utf8 "k1")

theorem named_pair : Named pair where
  distinct := by decide
  port i := by
    cases i with
    | false => exact ⟨50000, rfl, by decide⟩
    | true => exact ⟨50001, rfl, by decide⟩
  key := by decide

theorem names_stay_unique_pair :
    let s := pair.handle false (.rename (utf8 "c") [])
    Named s ∧
    (∀ i, (s.servers i).controlPort = (pair.servers i).controlPort ∧
      (s.servers i).sessionKey = (pair.servers i).sessionKey) ∧
    ∀ i req, Named (s.handle i req) ↔ Free s (i, req) := by
  have hfree : Free pair (false, .rename (utf8 "c") []) := by
    intro j hj
    cases j with
    | false => exact absurd rfl hj
    | true => decide
  exact names_stay_unique named_pair (System.Reachable.run (S := (requests pair).restrict Free) .init
    [(false, .rename (utf8 "c") [])] ⟨⟨trivial, hfree⟩, trivial⟩)

/-- A session renamed to the name of another that runs: both have one base. -/
theorem rename_takes_name :
    ¬ ∀ w s : World Bool, Named w → (requests w).Reachable s → Named s := by
  intro h
  have hs : (requests pair).Reachable (pair.handle false (.rename (utf8 "b") [])) :=
    System.Reachable.run (S := requests pair) .init [(false, .rename (utf8 "b") [])] ⟨trivial, trivial⟩
  have hbases : ((pair.handle false (.rename (utf8 "b") [])).servers false).portFileBase =
      ((pair.handle false (.rename (utf8 "b") [])).servers true).portFileBase := by decide
  have hsame := (h pair _ named_pair hs).distinct false true hbases
  contradiction

end Winsmux.Session
