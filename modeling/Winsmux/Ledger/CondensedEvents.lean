import Winsmux.Decimal
import Winsmux.Follower
import Winsmux.Ledger.EventContract
import Winsmux.Utf8

/-!
# Condensed events

The `events` command: its options, the lines of the event log that it reads, and the short
event that some of the records of the log stand for.
-/
namespace Winsmux.Ledger.CondensedEvents
open Json Utf8

inductive EventsError where
  | usage
  | missingProjectDir
  | projectDirNotFound
  | notText
  | record (e : LogError)
  deriving DecidableEq

structure EventsOptions where
  json : Bool
  follow : Bool
  projectDir : Option Text
  cursor : ℕ

/-- The flags and the arguments that are none, as they are found. -/
structure EventsArguments where
  json : Bool
  follow : Bool
  projectDir : Option Text
  positionals : List Text

def readEventsArguments : EventsArguments → List Text → Except EventsError EventsArguments
  | found, [] => .ok found
  | found, arg :: rest =>
    if arg = utf8 "--json" then readEventsArguments { found with json := true } rest
    else if arg = utf8 "--follow" then readEventsArguments { found with follow := true } rest
    else if arg = utf8 "--project-dir" then
      match rest with
      | [] => .error .missingProjectDir
      | value :: rest => readEventsArguments { found with projectDir := some value } rest
    else if arg.head? = some 0x2d then .error .usage
    else readEventsArguments { found with positionals := found.positionals ++ [arg] } rest

/-- The cursor is a number of 32 bits; where it is negative, it is zero. -/
def parseEventsOptions (args : List Text) : Except EventsError EventsOptions := do
  let found ← readEventsArguments ⟨false, false, none, []⟩ args
  match found.positionals with
  | [] => .ok ⟨found.json, found.follow, found.projectDir, 0⟩
  | [cursor] =>
    let parsed ← okOr (parseSigned 32 cursor) .usage
    .ok ⟨found.json, found.follow, found.projectDir, parsed.toNat⟩
  | _ => .error .usage

/-- The body of a log without its torn tail, where that is dropped. -/
def logBody (raw : Text) (dropTornTail : Bool) : Text :=
  if dropTornTail ∧ raw.getLast? ≠ some newline then raw.rdropWhile (· ≠ newline) else raw

def logLines (body : Text) : List Text :=
  (lines body).zipIdx.filterMap fun (line, index) =>
    if isBlank (eventLine index line) then none else some (eventLine index line)

def readEventsJsonlLines (file : Option Text) (dropTornTail : Bool) : Except EventsError (List Text) :=
  match file with
  | none => .ok []
  | some raw =>
    if fromUtf8Lossy raw = raw then .ok (logLines (logBody raw dropTornTail)) else .error .notText

def firstNonEmpty (first second : Text) : Text := if isBlank first then second else first

def eventDataString (data : Value) (key : String) : Text :=
  ((data.get (utf8 key)).bind Value.asStr).getD []

/-- An object from its entries, in the order of their keys. -/
def jsonObject (entries : List (String × Value)) : Value :=
  .obj (entries.foldl (fun es e => insertKey (utf8 e.1) e.2 es) [])

def actionEvents : List String :=
  ["approval_waiting", "pane.approval_waiting", "board.approval.requested", "operator.review_requested",
    "operator.blocked", "agent.heartbeat.blocked", "pane.crashed", "pane.hung", "pane.stalled"]

def actionStatuses : List String := ["approval_waiting", "blocked", "crashed", "hung", "stalled"]

def mapCondensedEvent (record : EventRecord) (cursor : ℕ) : Option Value :=
  let data (key : String) := eventDataString record.data key
  let status := firstNonEmpty record.status (data "status")
  let paneId := firstNonEmpty record.paneId (data "pane_id")
  let role := firstNonEmpty record.role (data "role")
  let runId := firstNonEmpty record.runId (data "run_id")
  let taskId := firstNonEmpty record.taskId (data "task_id")
  let stopReason := firstNonEmpty record.exitReason record.status
  let event := record.event
  let threadCreated := jsonObject [("type", .str (utf8 "thread_created")), ("cursor", .num cursor),
    ("pane_id", .str paneId), ("run_id", .str runId), ("role", .str role)]
  let statusRunning := jsonObject [("type", .str (utf8 "status_running")), ("cursor", .num cursor),
    ("pane_id", .str paneId), ("run_id", .str runId)]
  let statusIdle := jsonObject [("type", .str (utf8 "status_idle")), ("cursor", .num cursor),
    ("stop_reason", .str stopReason)]
  let messageReceived := jsonObject [("type", .str (utf8 "message_received")), ("cursor", .num cursor),
    ("run_id", .str runId), ("task_id", .str taskId)]
  let requiresAction (kind : Text) := jsonObject [("type", .str (utf8 "requires_action")),
    ("cursor", .num cursor), ("pane_id", .str paneId), ("kind", .str kind)]
  if event = utf8 "pane.started" then some threadCreated
  else if event = utf8 "agent.heartbeat.started" then some statusRunning
  else if event = utf8 "monitor.status" ∧ status = utf8 "running" then some statusRunning
  else if event ∈ ["pane.idle", "pane.completed", "agent.heartbeat.completed"].map utf8 then some statusIdle
  else if event = utf8 "monitor.status" ∧ status ∈ ["idle", "completed"].map utf8 then some statusIdle
  else if event ∈ ["pane.consult_result", "operator.commit_ready"].map utf8 then some messageReceived
  else if event ∈ actionEvents.map utf8 then some (requiresAction event)
  else if event = utf8 "monitor.status" ∧ status ∈ actionStatuses.map utf8 then some (requiresAction status)
  else none

def mapCompleteEventLine (reader : JsonReader) (index : ℕ) (line : Text) :
    Except EventsError (Option Value) :=
  match (reader.parse line).bind readEvent with
  | none => .error (.record (.parse (index + 1)))
  | some record =>
    match record.validate (index + 1) with
    | .error e => .error (.record e)
    | .ok () => .ok (mapCondensedEvent record index)

theorem logBody_true (raw : Text) : logBody raw true = raw.rdropWhile (· ≠ newline) := by
  unfold logBody
  by_cases h : raw.getLast? = some newline
  · rw [if_neg (by simp [h])]
    obtain ⟨front, rfl⟩ : ∃ front, raw = front ++ [newline] :=
      ⟨raw.dropLast, (List.dropLast_append_getLast? _ h).symm⟩
    rw [List.rdropWhile_concat_neg _ _ _ (by simp)]
  · rw [if_pos ⟨rfl, h⟩]

theorem logBody_ended (raw : Text) : logBody raw true = [] ∨ ∃ s, logBody raw true = s ++ [newline] := by
  rw [logBody_true]
  induction raw using List.reverseRecOn with
  | nil => exact .inl rfl
  | append_singleton raw c ih =>
    by_cases hc : c = newline
    · subst hc
      exact .inr ⟨raw, List.rdropWhile_concat_neg _ _ _ (by simp)⟩
    · rwa [List.rdropWhile_concat_pos _ _ _ (by simpa using hc)]

/-- The tail behind the last newline has no newline. -/
theorem exists_tornTail (raw : Text) : ∃ tail, raw = logBody raw true ++ tail ∧ newline ∉ tail := by
  refine ⟨raw.rtakeWhile (· ≠ newline), ?_, fun h => ?_⟩
  · rw [logBody_true, List.rdropWhile_append_rtakeWhile]
  · have := List.mem_rtakeWhile_imp h
    simp at this

theorem logBody_append (raw bytes : Text) :
    ∃ more, logBody (raw ++ bytes) true = logBody raw true ++ more := by
  induction bytes using List.reverseRecOn with
  | nil => exact ⟨[], by simp⟩
  | append_singleton bytes c ih =>
    by_cases hc : c = newline
    · subst hc
      obtain ⟨tail, htail, -⟩ := exists_tornTail raw
      refine ⟨tail ++ bytes ++ [newline], ?_⟩
      rw [← List.append_assoc, logBody_true, List.rdropWhile_concat_neg _ _ _ (by simp)]
      conv_lhs => rw [htail]
      simp
    · rw [← List.append_assoc, logBody_true, List.rdropWhile_concat_pos _ _ _ (by simpa using hc),
        ← logBody_true]
      exact ih

theorem logLines_append {s : Text} (hs : s = [] ∨ ∃ s', s = s' ++ [newline]) (t : Text) :
    ∃ more, logLines (s ++ t) = logLines s ++ more := by
  unfold logLines
  rw [show lines (s ++ t) = lines s ++ lines t by simp [lines, segments_append hs],
    List.zipIdx_append, List.filterMap_append]
  exact ⟨_, rfl⟩

/-- The finished lines of the log. -/
def completeLines (file : Option Text) : List Text :=
  file.elim [] fun raw => logLines (logBody raw true)

theorem readEventsJsonlLines_true (file : Option Text) :
    readEventsJsonlLines file true =
      if ∀ raw ∈ file, fromUtf8Lossy raw = raw then .ok (completeLines file) else .error .notText := by
  cases file with
  | none => rfl
  | some raw => simp [readEventsJsonlLines, completeLines]

/-- Finished lines stay as they are. -/
theorem completeLines_append (file : Option Text) (bytes : Text) :
    completeLines file <+: completeLines (some (file.getD [] ++ bytes)) := by
  cases file with
  | none => exact List.nil_prefix
  | some raw =>
    obtain ⟨more, hmore⟩ := logBody_append raw bytes
    obtain ⟨rest, hrest⟩ := logLines_append (logBody_ended raw) more
    refine ⟨rest, ?_⟩
    simp only [completeLines, Option.elim_some, Option.getD_some]
    rw [hmore, hrest]

/-- Besides the finished lines there is at most one. -/
theorem logLines_eq_or (raw : Text) : logLines raw = completeLines (some raw) ∨
    ∃ line, logLines raw = completeLines (some raw) ++ [line] := by
  obtain ⟨tail, htail, hmem⟩ := exists_tornTail raw
  have hsplit : lines raw = lines (logBody raw true) ++ lines tail := by
    conv_lhs => rw [htail]
    rw [lines, segments_append (logBody_ended raw), List.map_append]
    rfl
  have htail' : lines tail = [] ∨ lines tail = [tail] := by
    by_cases hnil : tail = []
    · exact .inl (by rw [hnil]; rfl)
    · right
      rw [lines, segments_eq_singleton hmem hnil, List.map_singleton, dropTerminator_unfinished hmem]
  unfold logLines completeLines
  rw [hsplit, List.zipIdx_append, List.filterMap_append, Option.elim_some, logLines]
  rcases htail' with h | h
  · exact .inl (by simp [h])
  · rw [h, List.zipIdx_singleton, List.filterMap_cons]
    split
    · exact .inl (by simp)
    · exact .inr ⟨_, rfl⟩

end Winsmux.Ledger.CondensedEvents
