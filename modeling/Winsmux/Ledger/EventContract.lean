import Mathlib.Data.List.DropRight
import Winsmux.JsonMap
import Winsmux.RemoteHelper.Message
import Winsmux.TextLines

/-!
# The event log

One JSON record a line. A line is read twice: as a typed record, which refuses
unknown and repeated fields, and as a JSON value.
-/
namespace Winsmux.Ledger
open Json RemoteHelper

/-- The JSON parser: the document of a text, as written. White space behind a
document does not belong to it. -/
structure JsonReader where
  parse : Text → Option Value
  parse_carriageReturn : ∀ t, parse (t ++ [carriageReturn]) = parse t

structure EventRecord where
  timestamp : Text
  event : Text
  session : Text
  message : Text
  label : Text
  paneId : Text
  role : Text
  status : Text
  exitReason : Text
  source : Text
  branch : Text
  runId : Text
  taskId : Text
  headSha : Text
  data : Value

/-- Why a log or an event is refused, with the number of the line. -/
inductive LogError where
  | parse (line : ℕ)
  | timestampEmpty (line : ℕ)
  | eventEmpty (line : ℕ)
  | untyped (line : ℕ)
  | notObject
  | dataNotObject
  deriving DecidableEq

/-- The fields of a record in the order of their declaration. -/
def eventFields : List String :=
  ["timestamp", "event", "session", "message", "label", "pane_id", "role", "status",
    "exit_reason", "source", "branch", "run_id", "task_id", "head_sha", "data"]

/-- `deserialize_event_string`: absent and `null` read as empty. -/
def readEventString : Option Value → Option Text
  | none | some .null => some []
  | some (.str s) => some s
  | some _ => none

/-- `deserialize_event_data`; an absent member is left at its default. -/
def readEventData : Option Value → Option Value
  | none => some .null
  | some .null => some (.obj [])
  | some (.obj entries) => some (Value.obj entries).normal
  | some _ => none

def readEventFields (field : String → Option Value) : Option EventRecord := do
  let timestamp ← (field "timestamp").bind Value.asStr
  let event ← (field "event").bind Value.asStr
  let session ← readEventString (field "session")
  let message ← readEventString (field "message")
  let label ← readEventString (field "label")
  let paneId ← readEventString (field "pane_id")
  let role ← readEventString (field "role")
  let status ← readEventString (field "status")
  let exitReason ← readEventString (field "exit_reason")
  let source ← readEventString (field "source")
  let branch ← readEventString (field "branch")
  let runId ← readEventString (field "run_id")
  let taskId ← readEventString (field "task_id")
  let headSha ← readEventString (field "head_sha")
  let data ← readEventData (field "data")
  some ⟨timestamp, event, session, message, label, paneId, role, status, exitReason, source,
    branch, runId, taskId, headSha, data⟩

/-- A record is an object with known fields, each once, or the sequence of its fields. -/
def readEvent : Value → Option EventRecord
  | .obj entries =>
    if (entries.map Prod.fst).Nodup ∧ knownFields (eventFields.map utf8) (.obj entries) then
      readEventFields fun name => entries.lookup (utf8 name)
    else none
  | .arr items =>
    if items.length ≤ eventFields.length then
      readEventFields fun name => items[eventFields.idxOf name]?
    else none
  | _ => none

/-- What `validate` finds wrong with the record of a line. -/
def EventRecord.validate (r : EventRecord) (line : ℕ) : Except LogError Unit :=
  if isBlank r.timestamp then .error (.timestampEmpty line)
  else if isBlank r.event then .error (.eventEmpty line)
  else .ok ()

/-- Byte order marks are dropped at the start of the first line only. -/
def eventLine (index : ℕ) (line : Text) : Text := if index = 0 then trimBom line else line

def parseEventLines (reader : JsonReader) : ℕ → List Text → Except LogError (List EventRecord)
  | _, [] => .ok []
  | index, line :: rest =>
    if isBlank line then parseEventLines reader (index + 1) rest
    else
      match (reader.parse (eventLine index line)).bind readEvent with
      | none => .error (.parse (index + 1))
      | some record => do
        record.validate (index + 1)
        let records ← parseEventLines reader (index + 1) rest
        .ok (record :: records)

def parseEventJsonl (reader : JsonReader) (content : Text) : Except LogError (List EventRecord) :=
  parseEventLines reader 0 (lines content)

/-- A line without the carriage returns at its end. -/
def dropReturns (line : Text) : Text := line.rdropWhile (· = carriageReturn)

@[simp] theorem dropReturns_append (line : Text) :
    dropReturns (line ++ [carriageReturn]) = dropReturns line :=
  List.rdropWhile_concat_pos _ _ _ (by simp)

theorem dropReturns_eq_self {line : Text} (h : line.getLast? ≠ some carriageReturn) :
    dropReturns line = line := by
  induction line using List.reverseRecOn with
  | nil => rfl
  | append_singleton line c =>
    refine List.rdropWhile_concat_neg _ _ _ ?_
    simpa using h

/-- What the text of a line has to do with its carriage returns. -/
theorem dropReturns_induction {P : Text → Prop} (line : Text)
    (hbase : ∀ l, dropReturns l = l → P l) (hstep : ∀ l, P l → P (l ++ [carriageReturn])) :
    P line := by
  induction line using List.reverseRecOn with
  | nil => exact hbase [] rfl
  | append_singleton line c ih =>
    by_cases hc : c = carriageReturn
    · subst hc
      exact hstep line ih
    · exact hbase _ (dropReturns_eq_self (by simpa using hc))

theorem isBlank_dropReturns (line : Text) : isBlank (dropReturns line) = isBlank line := by
  apply dropReturns_induction (P := fun l => isBlank (dropReturns l) = isBlank l) line
  · intro l h
    rw [h]
  · intro l ih
    rw [dropReturns_append, ih, isBlank_append_carriageReturn]

theorem JsonReader.parse_dropReturns (reader : JsonReader) (index : ℕ) (line : Text) :
    reader.parse (eventLine index (dropReturns line)) = reader.parse (eventLine index line) := by
  apply dropReturns_induction line
    (P := fun l => reader.parse (eventLine index (dropReturns l)) = reader.parse (eventLine index l))
  · intro l h
    rw [h]
  · intro l ih
    rw [dropReturns_append, ih]
    unfold eventLine
    by_cases h : index = 0
    · rw [if_pos h, if_pos h, trimBom_append_carriageReturn, reader.parse_carriageReturn]
    · rw [if_neg h, if_neg h, reader.parse_carriageReturn]

/-- A parser of the given documents and no others. -/
def readerOf (documents : List Value) : JsonReader where
  parse t := documents.find? fun v => v.toVec = dropReturns t
  parse_carriageReturn t := by simp

theorem readerOf_parse {documents : List Value} (hnodup : (documents.map Value.toVec).Nodup)
    {v : Value} (hv : v ∈ documents) (h : v.toVec.getLast? ≠ some carriageReturn) :
    (readerOf documents).parse v.toVec = some v := by
  simp only [readerOf, dropReturns_eq_self h]
  obtain ⟨w, hw⟩ : ∃ w, documents.find? (fun w => w.toVec = v.toVec) = some w := by
    rw [← Option.isSome_iff_exists, List.find?_isSome]
    exact ⟨v, hv, by simp⟩
  have htext : w.toVec = v.toVec := by simpa using List.find?_some hw
  rw [hw, List.inj_on_of_nodup_map hnodup (List.mem_of_find?_eq_some hw) hv htext]

theorem parseEventLines_dropReturns (reader : JsonReader) (index : ℕ) (ls : List Text) :
    parseEventLines reader index (ls.map dropReturns) = parseEventLines reader index ls := by
  induction ls generalizing index with
  | nil => rfl
  | cons line ls ih =>
    simp only [List.map_cons, parseEventLines, isBlank_dropReturns, reader.parse_dropReturns, ih]

theorem parseEventLines_append {reader : JsonReader} {index : ℕ} {ls : List Text}
    {records : List EventRecord} (h : parseEventLines reader index ls = .ok records)
    (ls' : List Text) : parseEventLines reader index (ls ++ ls') =
      (parseEventLines reader (index + ls.length) ls').map (records ++ ·) := by
  induction ls generalizing index records with
  | nil =>
    obtain rfl : [] = records := by simpa [parseEventLines] using h
    cases h' : parseEventLines reader (index + 0) ls' <;> simp_all [Except.map]
  | cons line ls ih =>
    simp only [List.cons_append, parseEventLines, List.length_cons] at h ⊢
    rw [show index + (ls.length + 1) = index + 1 + ls.length by omega]
    by_cases hb : isBlank line
    · rw [if_pos hb] at h ⊢
      exact ih h
    · rw [if_neg hb] at h ⊢
      cases hr : (reader.parse (eventLine index line)).bind readEvent with
      | none => simp [hr] at h
      | some record =>
        simp only [hr, bind, Except.bind] at h ⊢
        cases hv : record.validate (index + 1) with
        | error => simp [hv] at h
        | ok =>
          cases hl : parseEventLines reader (index + 1) ls with
          | error => simp [hv, hl] at h
          | ok rest =>
            obtain rfl : record :: rest = records := by simpa [hv, hl] using h
            rw [ih hl]
            cases parseEventLines reader (index + 1 + ls.length) ls' <;> rfl

/-- The lines of a log that gets one more, up to carriage returns. -/
theorem lines_appendLine_dropReturns (t : Text) {line : Text} (h : newline ∉ line)
    (hcr : line.getLast? ≠ some carriageReturn) :
    (lines (appendLine t line)).map dropReturns = (lines t).map dropReturns ++ [line] := by
  rw [lines_appendLine t h hcr, List.map_append, List.map_singleton, dropReturns_eq_self hcr]
  congr 1
  obtain heq | ⟨ls, l, h1, h2⟩ := lines_endLine t
  · rw [heq]
  · simp [h1, h2]

end Winsmux.Ledger
