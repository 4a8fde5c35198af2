import Winsmux.Config.Written

/-!
# Conditional blocks

The recursive reading of a configuration: a script is a sequence of lines and blocks, and of a
block at most one branch is executed. Whatever is properly nested has such a reading, and the
flat loop does what it says.
-/
namespace Winsmux.Config
open CharText

/-- A line that opens, divides or closes no block. -/
inductive Plain where
  | skip
  | hidden (name value : Chars)
  | command (line : Chars)

def Plain.line : Plain → Line
  | .skip => .skip
  | .hidden name value => .hidden name value
  | .command l => .command l

mutual

inductive Script where
  | done
  | plain (l : Plain) (next : Script)
  | block (condition : Chars) (body : Script) (others : Others) (next : Script)

/-- What stands behind the first branch of a block. -/
inductive Others where
  | endif
  | orElse (body : Script)
  | elif (condition : Chars) (body : Script) (others : Others)

end

mutual

def Script.text : Script → List Line
  | .done => []
  | .plain l next => l.line :: next.text
  | .block condition body others next =>
    .ifLine condition :: (body.text ++ (others.text ++ next.text))

def Others.text : Others → List Line
  | .endif => [.endifLine]
  | .orElse body => .elseLine :: (body.text ++ [.endifLine])
  | .elif condition body others => .elifLine condition :: (body.text ++ others.text)

end

/-- Which blocks are open, each with whether its `%else` was met, and whether every directive is
allowed where it stands. -/
def nestedIn : List Bool → List Line → Bool
  | stack, [] => stack.isEmpty
  | stack, .ifLine _ :: ls => nestedIn (false :: stack) ls
  | false :: stack, .elifLine _ :: ls => nestedIn (false :: stack) ls
  | _, .elifLine _ :: _ => false
  | false :: stack, .elseLine :: ls => nestedIn (true :: stack) ls
  | _, .elseLine :: _ => false
  | _ :: stack, .endifLine :: ls => nestedIn stack ls
  | [], .endifLine :: _ => false
  | stack, .skip :: ls => nestedIn stack ls
  | stack, .hidden _ _ :: ls => nestedIn stack ls
  | stack, .command _ :: ls => nestedIn stack ls

def properlyNested (ls : List Line) : Bool := nestedIn [] ls

section
variable {ρ : Type} (cmds : Commands ρ)

def Plain.run (app : App ρ) : Plain → App ρ
  | .skip => app
  | .hidden name value => defineHidden name value app
  | .command l => runCommand cmds l app

mutual

def Script.run : Script → App ρ → App ρ
  | .done, app => app
  | .plain l next, app => next.run (l.run cmds app)
  | .block condition body others next, app =>
    let (result, app) := holds cmds condition app
    next.run (if result then body.run app else others.run app)

def Others.run : Others → App ρ → App ρ
  | .endif, app => app
  | .orElse body, app => body.run app
  | .elif condition body others, app =>
    let (result, app) := holds cmds condition app
    if result then body.run app else others.run app

end

end

/-- Lines that are nested in open blocks: the rest of the innermost, then lines nested in the
others. -/
inductive Parsed : List Bool → List Line → Prop
  | script (s : Script) : Parsed [] s.text
  | inBlock (metElse : Bool) (stack : List Bool) (body : Script) (others : Others) (ls : List Line)
      (hothers : metElse = true → others = .endif) (h : nestedIn stack ls = true) :
      Parsed (metElse :: stack) (body.text ++ (others.text ++ ls))

theorem Parsed.plain {stack : List Bool} {ls : List Line} (h : Parsed stack ls) (l : Plain) :
    Parsed stack (l.line :: ls) := by
  cases h with
  | script s => exact .script (.plain l s)
  | inBlock metElse stack body others ls hothers h =>
    exact .inBlock metElse stack (.plain l body) others ls hothers h

theorem Parsed.block {stack : List Bool} {ls : List Line} (h : Parsed stack ls) (condition : Chars)
    (body : Script) (others : Others) :
    Parsed stack (.ifLine condition :: (body.text ++ (others.text ++ ls))) := by
  cases h with
  | script s => exact .script (.block condition body others s)
  | inBlock metElse stack body' others' ls hothers h =>
    have hp := Parsed.inBlock metElse stack (.block condition body others body') others' ls hothers h
    simpa only [Script.text, List.cons_append, List.append_assoc] using hp

theorem parsed_of_nestedIn (ls : List Line) {stack : List Bool} (h : nestedIn stack ls = true) :
    Parsed stack ls := by
  induction hn : ls.length using Nat.strongRecOn generalizing ls stack with
  | ind n ih =>
    have hnext {ls' : List Line} {stack' : List Bool} (hlen : ls'.length < ls.length)
        (h' : nestedIn stack' ls' = true) : Parsed stack' ls' :=
      ih _ (hn ▸ hlen) ls' h' rfl
    match ls, stack with
    | [], stack =>
      obtain rfl : stack = [] := by simpa [nestedIn] using h
      exact .script .done
    | .skip :: ls, stack => exact (@hnext ls _ (by simp) h).plain .skip
    | .hidden name value :: ls, stack => exact (@hnext ls _ (by simp) h).plain (.hidden name value)
    | .command l :: ls, stack => exact (@hnext ls _ (by simp) h).plain (.command l)
    | .ifLine condition :: ls, stack =>
      cases @hnext ls _ (by simp) h with
      | inBlock _ _ body others ls' _ h' =>
        refine (hnext ?_ h').block condition body others
        simp only [List.length_cons, List.length_append]
        omega
    | .elifLine condition :: ls, false :: stack =>
      cases @hnext ls _ (by simp) h with
      | inBlock _ _ body others ls' _ h' =>
        have hp := Parsed.inBlock false stack .done (.elif condition body others) ls' nofun h'
        simpa only [Script.text, Others.text, List.nil_append, List.cons_append,
          List.append_assoc] using hp
    | .elseLine :: ls, false :: stack =>
      cases @hnext ls _ (by simp) h with
      | inBlock _ _ body others ls' hothers h' =>
        obtain rfl := hothers rfl
        have hp := Parsed.inBlock false stack .done (.orElse body) ls' nofun h'
        simpa only [Script.text, Others.text, List.nil_append, List.cons_append,
          List.append_assoc] using hp
    | .endifLine :: ls, metElse :: stack =>
      exact .inBlock metElse stack .done .endif ls (fun _ => rfl) h
    | .elifLine condition :: ls, [] => cases h
    | .elifLine condition :: ls, true :: stack => cases h
    | .elseLine :: ls, [] => cases h
    | .elseLine :: ls, true :: stack => cases h
    | .endifLine :: ls, [] => cases h

theorem exists_script {ls : List Line} (h : properlyNested ls = true) :
    ∃ script : Script, script.text = ls := by
  cases parsed_of_nestedIn ls h with
  | script s => exact ⟨s, rfl⟩

section
variable {ρ : Type} (cmds : Commands ρ)

/-- A line that is no directive changes no block. -/
theorem step_plain (l : Plain) (ifStack : List IfState) (app : App ρ) :
    step cmds ifStack app l.line = (ifStack, if active ifStack then l.run cmds app else app) := by
  cases l with
  | skip => simp [Plain.line, step, Plain.run]
  | hidden name value => rfl
  | command l => rfl

mutual

/-- A script counts where the blocks around it do, and leaves them as they are. -/
theorem Script.runLines_text (s : Script) (ls : List Line) (ifStack : List IfState) (app : App ρ) :
    runLines cmds (s.text ++ ls) ifStack app =
      runLines cmds ls ifStack (if active ifStack then s.run cmds app else app) := by
  cases s with
  | done => simp [Script.text, Script.run]
  | plain l next =>
    rw [Script.text, List.cons_append, runLines, step_plain]
    dsimp only
    rw [Script.runLines_text next]
    cases active ifStack <;> rfl
  | block condition body others next =>
    rw [Script.text, List.cons_append, runLines, step, List.append_assoc, List.append_assoc]
    dsimp only
    rw [Script.runLines_text body, Others.runLines_text others, Script.runLines_text next]
    cases hactive : active ifStack with
    | false => simp [active]
    | true =>
      rw [Script.run]
      cases hresult : (holds cmds condition app).1 <;> simp [active, hresult]

/-- The branches that are left count if the block does and none has counted so far. -/
theorem Others.runLines_text (o : Others) (ls : List Line) (state : IfState)
    (ifStack : List IfState) (app : App ρ) :
    runLines cmds (o.text ++ ls) (state :: ifStack) app =
      runLines cmds ls ifStack
        (if state.parentActive && !state.satisfied then o.run cmds app else app) := by
  cases o with
  | endif => simp [Others.text, Others.run, runLines, step]
  | orElse body =>
    rw [Others.text, List.cons_append, runLines, step, List.append_assoc]
    dsimp only
    rw [Script.runLines_text body, List.singleton_append, runLines, step]
    rfl
  | elif condition body others =>
    rw [Others.text, List.cons_append, runLines, step, List.append_assoc]
    dsimp only
    split
    · next hleft =>
      obtain ⟨hparent, hsatisfied⟩ := Bool.and_eq_true_iff.1 hleft
      dsimp only
      rw [Script.runLines_text body, Others.runLines_text others, Others.run]
      cases hresult : (holds cmds condition app).1 <;> simp_all [active]
    · next hdone =>
      rw [Script.runLines_text body, Others.runLines_text others]
      simp [active, hdone]

end

theorem parseConfigContent_of_text {script : Script} {content : Chars} (h : script.text = configLines content)
    (app : App ρ) : parseConfigContent cmds content app = script.run cmds app := by
  have hrun := script.runLines_text cmds [] [] app
  rw [List.append_nil, h] at hrun
  rw [parseConfigContent, hrun]
  rfl

/-- What is properly nested has a recursive reading, and the loop does what every such reading says:
lines in order, of a block the first branch whose condition holds in the state that is reached, and
nothing of a branch that is not taken. A script that is written out is read as that script. -/
theorem parseConfigContent_eq_run (content : Chars)
    (h : properlyNested (configLines content) = true) :
    (∃ script : Script, script.text = configLines content) ∧
      (∀ script : Script, script.text = configLines content →
        ∀ app, parseConfigContent cmds content app = script.run cmds app) ∧
      ∀ script : Script, (∀ l ∈ script.text, l.Writable) →
        configLines (writeLines script.text) = script.text ∧
          ∀ app, parseConfigContent cmds (writeLines script.text) app = script.run cmds app := by
  refine ⟨exists_script h, fun script htext app => parseConfigContent_of_text cmds htext app, fun script hlines => ?_⟩
  have hread := configLines_writeLines hlines
  exact ⟨hread, fun app => parseConfigContent_of_text cmds hread.symm app⟩

end

/-- Two blocks, one inside the other, for commands that are only written down. -/
theorem parseConfigContent_eq_run_nested :
    let cmds : Commands (List Chars) :=
      ⟨fun condition app => (condition, app), fun l app => { app with rest := app.rest ++ [l] }⟩
    let content :=
      "set a b\n%if x\n%if 0\nset c d\n%elif z\n%hidden N=v\n%else\nset e f\n%endif\n%endif\n".toList
    (∃ script : Script, script.text = configLines content) ∧
      (∀ script : Script, script.text = configLines content →
        ∀ app, parseConfigContent cmds content app = script.run cmds app) ∧
      ∀ script : Script, (∀ l ∈ script.text, l.Writable) →
        configLines (writeLines script.text) = script.text ∧
          ∀ app, parseConfigContent cmds (writeLines script.text) app = script.run cmds app :=
  parseConfigContent_eq_run _ _ (by decide)

end Winsmux.Config
