import Winsmux.Layout.Transfer

/-!
# Commands on the list of windows

The commands that move, swap, link and unlink windows, beside those of the layouts. A
linked window has a shell of its own: only its name and a mark tell it from a new one.
-/
namespace Winsmux.Layout
open PathTree Json Transition

inductive WindowCommand where
  | layout (c : Command)
  | moveWindow (target : Option ℕ)
  | swapWindow (target : ℕ)
  | linkWindow (src dst : Option ℕ) (refused : Bool)
  | unlinkWindow
  | focusWindow (wid : ℕ)

namespace Server

/-- The active window taken out and put in at the target. -/
def moveWindow (target : Option ℕ) (s : Server) : Except Panic Server :=
  match target with
  | none => .ok s
  | some t =>
    if t < s.windows.length ∧ s.activeIdx ≠ t then do
      let win ← s.active
      let windows := s.windows.eraseIdx s.activeIdx
      let insertIdx := if t > s.activeIdx then t - 1 else t
      .ok { s with
        windows := windows.insertIdx (min insertIdx windows.length) win
        activeIdx := min insertIdx (s.windows.length - 1) }
    else .ok s

def swapWindow (target : ℕ) (s : Server) : Except Panic Server :=
  if target < s.windows.length ∧ s.activeIdx ≠ target then do
    let a ← s.active
    match s.windows[target]? with
    | none => .error .windowIndex
    | some b => .ok { s with windows := (s.windows.set s.activeIdx b).set target a }
  else .ok s

/-- A new window, then moved from the end to its place. -/
def linkWindow (src dst : Option ℕ) (refused : Bool) (s : Server) : Server :=
  if src.getD s.activeIdx < s.windows.length ∧ !(refused && s.warmPane.isNone) then
    let dst := dst.getD s.windows.length
    let s := s.createWindow true refused
    let newIdx := s.windows.length - 1
    match s.windows[newIdx]? with
    | none => s
    | some win =>
      if dst < newIdx then
        { s with
          windows := (s.windows.eraseIdx newIdx).insertIdx dst win
          activeIdx := if dst < s.activeIdx ∧ s.activeIdx ≤ newIdx then s.activeIdx - 1 else s.activeIdx }
      else s
  else s

def unlinkWindow (s : Server) : Except Panic Server :=
  if s.windows.length > 1 then do
    let _ ← s.active
    let windows := s.windows.eraseIdx s.activeIdx
    .ok { s with windows, activeIdx := min s.activeIdx (windows.length - 1) }
  else .ok s

def focusWindow (wid : ℕ) (s : Server) : Server :=
  match s.windows.findIdx? (·.id = wid) with
  | some idx => s.withActive idx
  | none => s

end Server

/-- One command. -/
def WindowCommand.step (s : Server) : WindowCommand → Except Panic Server
  | .layout c => Layout.step s c
  | .moveWindow target => s.moveWindow target
  | .swapWindow target => s.swapWindow target
  | .linkWindow src dst refused => .ok (s.linkWindow src dst refused)
  | .unlinkWindow => s.unlinkWindow
  | .focusWindow wid => .ok (s.focusWindow wid)

/-- The server from a start, with all commands on windows. -/
def windowSession (s : Server) : System Server WindowCommand where
  init := s
  enabled s c := (c.step s).isOk
  next s c := (c.step s).toOption.getD s

instance windowSession.decidable (s0 s : Server) (c : WindowCommand) :
    Decidable ((windowSession s0).enabled s c) :=
  inferInstanceAs (Decidable ((c.step s).isOk = true))

end Winsmux.Layout
