import Winsmux.Input.BracketedPaste
import Mathlib.Data.List.DropRight

/-!
# Messages to the operator

`desktop.operator.submit` types one message into the operator's terminal and submits it. A message of
more than one line is framed as a paste, as it is.
-/
namespace Winsmux.Input
open VtParser
open CharText (Chars)

/-- A value of a request; only strings are read. -/
inductive Param where
  | text (s : Chars)
  | other
  deriving DecidableEq

/-- The parameters of a request: missing, named, listed, or neither. -/
inductive Params where
  | none
  | object (entries : List (String × Param))
  | array (items : List Param)
  | other
  deriving DecidableEq

/-- `ParseError::InvalidParams`, with the text of the code or of the deserializer. -/
inductive ParseError where
  | invalidParams (message : String)
  | deserialize
  deriving DecidableEq

def rejectOperatorPaneOverride : Params → Except ParseError Unit
  | .object entries =>
    if entries.any fun e => e.1 = "paneId" ∨ e.1 = "pane_id" then
      .error (.invalidParams "desktop.operator.* methods always target the operator pane; remove paneId")
    else .ok ()
  | _ => .ok ()

/-- `deserialize_params::<OperatorSubmitParams>`: one field, under one of its names. -/
def deserializeSubmit : Params → Except ParseError Chars
  | .object entries =>
    match entries.filter fun e => e.1 = "text" ∨ e.1 = "message" ∨ e.1 = "data" with
    | [(_, .text s)] => .ok s
    | _ => .error .deserialize
  | .array [.text s] => .ok s
  | _ => .error .deserialize

def requiredUntrimmedString (value : Chars) : Except ParseError Chars :=
  if value = [] then .error (.invalidParams "Missing required params field") else .ok value

def isLineBreak (c : Char) : Bool := c = '\r' ∨ c = '\n'

/-- A message without the line breaks at its end. -/
def withoutLineEnd (text : Chars) : Chars := text.rdropWhile isLineBreak

/-- The text to write, and whether a carriage return is written behind it. -/
def normalizeOperatorSubmitText (text : Chars) : Chars × Bool :=
  let text := withoutLineEnd text
  if text.any isLineBreak then (pasteStart ++ text ++ pasteEnd, true) else (text ++ ['\r'], false)

structure OperatorSubmit where
  text : Chars
  submitAfterPaste : Bool
  deriving DecidableEq

/-- The message of a request that is accepted. -/
def acceptedText (params : Params) : Except ParseError Chars := do
  rejectOperatorPaneOverride params
  requiredUntrimmedString (← deserializeSubmit params)

/-- `parse_command` for this method. -/
def parseOperatorSubmit (params : Params) : Except ParseError OperatorSubmit := do
  let submit := normalizeOperatorSubmitText (← acceptedText params)
  return ⟨submit.1, submit.2⟩

/-- `submit_operator_text_with`: what is written to the terminal. -/
def OperatorSubmit.written (command : OperatorSubmit) : Chars :=
  command.text ++ if command.submitAfterPaste then ['\r'] else []

/-- The events of a message of more than one line. -/
def submitEvents (text : Chars) : List Event := [.paste text, .key .enter .empty]

theorem decodes_return : Decodes ['\r'] [.key .enter .empty] := by
  intro p hp
  refine ⟨p, ?_, hp⟩
  rw [feedAll_singleton, feed_ground hp]
  rfl

/-- A text without events leaves the parser inside the paste. -/
theorem pasting_of_feedAll {p : VtParser} (hp : Pasting p) {s : Chars} (h : (p.feedAll s).2 = []) :
    Pasting (p.feedAll s).1 := by
  induction s generalizing p with
  | nil => exact hp
  | cons ch s ih =>
    rw [feedAll] at h ⊢
    dsimp only at h ⊢
    obtain ⟨hnone, hrest⟩ := List.append_eq_nil_iff.1 h
    rcases feed_pasting hp ch with hend | ⟨-, hpasting, -⟩
    · rw [hend] at hnone
      cases hnone
    · exact ih hpasting hrest

/-- What is read of a pasted text and a carriage return as the text and enter begins with the text in the
pasted part. -/
theorem pasted_of_submitted {t : Chars} (h : (VtParser.new.feedAll (pasted t ++ ['\r'])).2 = submitEvents t) :
    ∃ more, (VtParser.new.feedAll (pasted t)).2 = .paste t :: more := by
  obtain ⟨q, hq, hqs, -⟩ := feedAll_pasteStart (p := .new) rfl
  obtain ⟨⟨r, events⟩, hr⟩ : ∃ x, q.feedAll (t ++ pasteEnd) = x := ⟨_, rfl⟩
  have hpasted : VtParser.new.feedAll (pasted t) = (r, events) := by
    rw [pasted, List.append_assoc, feedAll_silent hq, hr]
  have hreturn : r.feedAll ['\r'] = ((r.feed '\r').1, (r.feed '\r').2) := feedAll_singleton r '\r'
  rw [feedAll_append hpasted hreturn] at h
  rw [hpasted]
  dsimp only at h ⊢
  cases events with
  | cons event more =>
    obtain ⟨rfl, -⟩ := List.cons.inj h
    exact ⟨more, rfl⟩
  | nil =>
    -- the paste goes on, and the carriage return ends it with one event at most
    have hpasting : Pasting r := by
      have hpasting := pasting_of_feedAll (.inl hqs) (congrArg Prod.snd hr)
      rwa [hr] at hpasting
    rw [List.nil_append] at h
    rcases feed_pasting hpasting '\r' with hend | ⟨hnone, -⟩
    · rw [hend] at h
      cases h
    · rw [hnone] at h
      cases h

theorem submitted_iff (t : Chars) : Decodes (pasted t ++ ['\r']) (submitEvents t) ↔ PasteText t := by
  constructor
  · intro h
    obtain ⟨q, hq, -⟩ := h .new rfl
    obtain ⟨more, hmore⟩ := pasted_of_submitted (congrArg Prod.snd hq)
    exact pasteText_of_pasted hmore
  · exact fun ht => (decodes_pasted ht).append decodes_return

theorem parseOperatorSubmit_of_accepted {params : Params} {text : Chars} (h : acceptedText params = .ok text)
    (hbreak : (withoutLineEnd text).any isLineBreak = true) :
    parseOperatorSubmit params = .ok ⟨pasted (withoutLineEnd text), true⟩ := by
  have hsubmit : normalizeOperatorSubmitText text = (pasted (withoutLineEnd text), true) := if_pos hbreak
  rw [parseOperatorSubmit, h]
  exact congrArg (fun submit => Except.ok (OperatorSubmit.mk submit.1 submit.2)) hsubmit

/-- A message of more than one line is read as one paste and enter exactly when it is made of whole
pieces. -/
theorem submit_stays_data_iff (params : Params) (text : Chars) (h : acceptedText params = .ok text)
    (hbreak : (withoutLineEnd text).any isLineBreak = true) :
    (∃ command, parseOperatorSubmit params = .ok command ∧
      Decodes command.written (submitEvents (withoutLineEnd text))) ↔ PasteText (withoutLineEnd text) := by
  rw [parseOperatorSubmit_of_accepted h hbreak, ← submitted_iff]
  constructor
  · rintro ⟨_, ⟨rfl⟩, hdecodes⟩
    exact hdecodes
  · exact fun hdecodes => ⟨_, rfl, hdecodes⟩

/-- A message of two lines. -/
theorem submit_stays_data_iff_lines :
    (∃ command, parseOperatorSubmit (.object [("text", .text ['a', '\n', 'b', '\n'])]) = .ok command ∧
      Decodes command.written (submitEvents ['a', '\n', 'b'])) ↔ PasteText ['a', '\n', 'b'] :=
  submit_stays_data_iff (.object [("text", .text ['a', '\n', 'b', '\n'])]) ['a', '\n', 'b', '\n'] (by decide)
    (by decide)

/-- A message that carries the end marker is submitted before its end. -/
theorem submit_ends_early :
    ¬ ∀ params text, acceptedText params = .ok text → (withoutLineEnd text).any isLineBreak = true →
      ∃ command, parseOperatorSubmit params = .ok command ∧
        Decodes command.written (submitEvents (withoutLineEnd text)) := by
  intro h
  let text : Chars := ['a'] ++ pasteEnd ++ ['\r', 'b']
  obtain ⟨command, hcommand, hdecodes⟩ := h (.object [("text", .text text)]) text (by decide) (by decide)
  have hwritten : parseOperatorSubmit (.object [("text", .text text)]) = .ok ⟨pasted text, true⟩ := by decide
  obtain rfl := Except.ok.inj (hcommand.symm.trans hwritten)
  obtain ⟨q, hq, -⟩ := hdecodes .new rfl
  have hread : _ = submitEvents _ := congrArg Prod.snd hq
  have hevents : (VtParser.new.feedAll (pasted text ++ ['\r'])).2 =
      [.paste ['a'], .key .enter .empty, .key (.char 'b') .empty, .key .enter .empty] := by decide
  rw [OperatorSubmit.written, if_pos rfl, hevents] at hread
  exact absurd hread (by decide)

end Winsmux.Input
