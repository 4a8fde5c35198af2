import Winsmux.Ledger.CondensedEvents
import Winsmux.Transition

/-!
# A client of the condensed events

A log gets longer while a client reads its condensed events. The client runs one command at a
time, to follow the log or to print what it holds, and starts each at the last cursor that was
printed.
-/
namespace Winsmux.Ledger.CondensedEvents
open Json Utf8 Follower Transition

inductive EventsRun where
  | help
  | follow (cursor : ℕ)
  | once (cursor : ℕ)

def runEventsCommand (isDir : Option Text → Bool) (args : List Text) : Except EventsError EventsRun :=
  if utf8 "-h" ∈ args ∨ utf8 "--help" ∈ args then .ok .help
  else do
    let options ← parseEventsOptions args
    reject (options.json = false) .usage
    reject (isDir options.projectDir = false) .projectDirNotFound
    .ok (if options.follow then .follow options.cursor else .once options.cursor)

/-- The arguments of a client that has seen a cursor. -/
def commandLine (cursor : ℕ) (follow : Bool) : List Text :=
  decimal cursor :: if follow then [utf8 "--follow", utf8 "--json"] else [utf8 "--json"]

/-- A line of output: a cursor and the events in front of it. -/
abbrev Wrapper := ℕ × List Value

structure EventStream where
  file : Option Text
  /-- The cursor of the command that follows the log. -/
  follower : Option ℕ
  output : List Wrapper

namespace EventStream

/-- The cursor that was printed last. -/
def cursor (s : EventStream) : ℕ := lastCursor 0 s.output

def events (s : EventStream) : List Value := s.output.flatMap Prod.snd

def append (s : EventStream) (bytes : Text) : EventStream :=
  { s with file := some (s.file.getD [] ++ bytes) }

section
variable (reader : JsonReader) (isDir : Option Text → Bool)

/-- A turn of the loop of `follow_condensed_events`. -/
def followCondensedEvents (s : EventStream) (cursor : ℕ) : EventStream :=
  match readEventsJsonlLines s.file true with
  | .error _ => { s with follower := none }
  | .ok lines =>
    let start := if lines.length < cursor then 0 else cursor
    let turn := pass (mapCompleteEventLine reader) start (lines.drop start)
    { s with
      follower := if turn.failed.isNone then some turn.cursor else none
      output := s.output ++ turn.written.map fun e => (e.1, [e.2]) }

/-- The events behind a cursor are printed together, or none of them. -/
def printCondensedEvents (s : EventStream) (cursor : ℕ) : EventStream :=
  match readEventsJsonlLines s.file false with
  | .error _ => s
  | .ok lines =>
    match readFrom (mapCompleteEventLine reader) cursor (lines.drop cursor) with
    | .error _ => s
    | .ok events => { s with output := s.output ++ [(lines.length, events.map Prod.snd)] }

/-- The command that runs is ended, and another is started at the last cursor. -/
def start (s : EventStream) (follow : Bool) : EventStream :=
  let ended := { s with follower := none }
  match runEventsCommand isDir (commandLine s.cursor follow) with
  | .ok (.follow cursor) => { ended with follower := some cursor }
  | .ok (.once cursor) => printCondensedEvents reader ended cursor
  | _ => ended

end
end EventStream

inductive EventStep where
  | append (bytes : Text)
  | poll
  | resume
  | snapshot
  deriving DecidableEq

def eventStream (reader : JsonReader) (isDir : Option Text → Bool) : System EventStream EventStep where
  init := ⟨none, none, []⟩
  enabled
    | s, .poll => s.follower.isSome
    | _, _ => True
  next
    | s, .append bytes => s.append bytes
    | s, .poll => s.follower.elim s (s.followCondensedEvents reader)
    | s, .resume => s.start reader isDir true
    | s, .snapshot => s.start reader isDir false

instance eventStream.decidable (reader : JsonReader) (isDir : Option Text → Bool) (s : EventStream) :
    ∀ l, Decidable ((eventStream reader isDir).enabled s l)
  | .append _ => inferInstanceAs (Decidable True)
  | .poll => inferInstanceAs (Decidable (s.follower.isSome = true))
  | .resume => inferInstanceAs (Decidable True)
  | .snapshot => inferInstanceAs (Decidable True)

/-- The last line of the log is not finished. -/
def EventStream.tornLine (s : EventStream) : Bool :=
  s.file.any fun raw => logLines raw ≠ completeLines (some raw)

/-- What the log holds is printed only while its last line is finished. -/
def FinishedSnapshots (s : EventStream) (l : EventStep) : Prop := l = .snapshot → s.tornLine = false

instance FinishedSnapshots.decidable (s : EventStream) (l : EventStep) : Decidable (FinishedSnapshots s l) :=
  inferInstanceAs (Decidable (l = .snapshot → s.tornLine = false))

theorem head?_decimal (n : ℕ) : (decimal n).head? ≠ some 0x2d := by
  obtain ⟨c, t, hc, hdigit⟩ := decimal_eq_cons n
  rw [hc, List.head?_cons, ne_eq, Option.some_inj]
  rintro rfl
  contradiction

theorem decimal_ne {n : ℕ} {flag : Text} (h : flag.head? = some 0x2d) : decimal n ≠ flag :=
  fun heq => head?_decimal n (heq ▸ h)

theorem readEventsArguments_commandLine (n : ℕ) (follow : Bool) :
    readEventsArguments ⟨false, false, none, []⟩ (commandLine n follow) =
      .ok ⟨true, follow, none, [decimal n]⟩ := by
  rw [commandLine, readEventsArguments.eq_def]
  dsimp only
  rw [if_neg (decimal_ne (by decide)), if_neg (decimal_ne (by decide)), if_neg (decimal_ne (by decide)),
    if_neg (head?_decimal n)]
  cases follow <;> rfl

/-- A client gets on where its cursor has 31 bits at most and the project is there. -/
theorem runEventsCommand_commandLine (isDir : Option Text → Bool) (n : ℕ) (follow : Bool) :
    runEventsCommand isDir (commandLine n follow) =
      if n < 2 ^ 31 then
        if isDir none then .ok (if follow then .follow n else .once n) else .error .projectDirNotFound
      else .error .usage := by
  have hhelp : ¬ (utf8 "-h" ∈ commandLine n follow ∨ utf8 "--help" ∈ commandLine n follow) := by
    have h1 : utf8 "-h" ≠ decimal n := (decimal_ne (by decide)).symm
    have h2 : utf8 "--help" ≠ decimal n := (decimal_ne (by decide)).symm
    have h3 : ∀ flag ∈ [utf8 "-h", utf8 "--help"], flag ∉ [utf8 "--follow", utf8 "--json"] := by decide
    cases follow <;> simp_all [commandLine]
  rw [runEventsCommand, if_neg hhelp, parseEventsOptions, readEventsArguments_commandLine, ok_bind]
  dsimp only
  rw [parseSigned_decimal]
  by_cases h : n < 2 ^ 31
  · rw [if_pos h, if_pos h]
    cases hd : isDir none <;> simp [okOr, reject, hd]
  · rw [if_neg h, if_neg h]
    rfl

section
variable (reader : JsonReader)

/-- What was printed stands for the finished lines in front of the last cursor, and the
command that runs has passed over no others that stand for something. -/
def Caught (s : EventStream) : Prop :=
  ∃ out, s.events = out.map Prod.snd ∧
    Written (mapCompleteEventLine reader) (completeLines s.file) s.cursor out ∧
    ∀ c ∈ s.follower, Written (mapCompleteEventLine reader) (completeLines s.file) c out ∧ s.cursor ≤ c

end

section
variable {reader : JsonReader} {isDir : Option Text → Bool} {s : EventStream}

theorem Caught.append (h : Caught reader s) (bytes : Text) : Caught reader (s.append bytes) := by
  obtain ⟨out, hevents, hcursor, hfollow⟩ := h
  have hgrow := completeLines_append s.file bytes
  exact ⟨out, hevents, hcursor.grow hgrow, fun c hc => ⟨(hfollow c hc).1.grow hgrow, (hfollow c hc).2⟩⟩

theorem Caught.ended (h : Caught reader s) : Caught reader { s with follower := none } := by
  obtain ⟨out, hevents, hcursor, -⟩ := h
  exact ⟨out, hevents, hcursor, by simp⟩

theorem lastCursor_wrappers (n : ℕ) (w : List (ℕ × Value)) :
    lastCursor n (w.map fun e => (e.1, [e.2])) = lastCursor n w := by
  unfold lastCursor
  rw [List.getLast?_map, Option.map_map]
  rfl

theorem flatMap_wrappers (w : List (ℕ × Value)) :
    (w.map fun e => (e.1, [e.2])).flatMap Prod.snd = w.map Prod.snd := by
  induction w with
  | nil => rfl
  | cons e w ih => rw [List.map_cons, List.flatMap_cons, ih, List.map_cons, List.singleton_append]

/-- A turn of a follower that has not lost its place. -/
theorem followCondensedEvents_eq {c : ℕ} (htext : ∀ raw ∈ s.file, fromUtf8Lossy raw = raw)
    (hc : c ≤ (completeLines s.file).length) :
    s.followCondensedEvents reader c =
      let turn := pass (mapCompleteEventLine reader) c ((completeLines s.file).drop c)
      { s with
        follower := if turn.failed.isNone then some turn.cursor else none
        output := s.output ++ turn.written.map fun e => (e.1, [e.2]) } := by
  rw [EventStream.followCondensedEvents, readEventsJsonlLines_true, if_pos htext]
  dsimp only
  rw [if_neg (Nat.not_lt.2 hc)]

theorem followCondensedEvents_of_not_text {c : ℕ} (htext : ¬ ∀ raw ∈ s.file, fromUtf8Lossy raw = raw) :
    s.followCondensedEvents reader c = { s with follower := none } := by
  rw [EventStream.followCondensedEvents, readEventsJsonlLines_true, if_neg htext]

theorem Caught.follow (h : Caught reader s) {c : ℕ} (hc : s.follower = some c) :
    Caught reader (s.followCondensedEvents reader c) ∧
      ((s.followCondensedEvents reader c).follower.isSome →
        (s.followCondensedEvents reader c).follower = some (completeLines s.file).length) := by
  by_cases htext : ∀ raw ∈ s.file, fromUtf8Lossy raw = raw
  · obtain ⟨out, hevents, hcursor, hfollow⟩ := h
    obtain ⟨hwritten, hle⟩ := hfollow c hc
    obtain ⟨hturn, hend⟩ := hwritten.turn
    obtain ⟨hlast, hbound⟩ := hwritten.behindLast hcursor hle
    rw [followCondensedEvents_eq htext hwritten.1]
    dsimp only
    generalize pass (mapCompleteEventLine reader) c ((completeLines s.file).drop c) = turn at *
    have hnew : EventStream.cursor { s with
        follower := if turn.failed.isNone then some turn.cursor else none
        output := s.output ++ turn.written.map fun e => (e.1, [e.2]) } =
          lastCursor s.cursor turn.written := by
      rw [EventStream.cursor, lastCursor_append, lastCursor_wrappers]
      rfl
    constructor
    · refine ⟨out ++ turn.written, ?_, ?_, ?_⟩
      · rw [EventStream.events, List.flatMap_append, flatMap_wrappers, List.map_append, ← hevents]
        rfl
      · rw [hnew]
        exact hlast
      · intro d hd
        rw [hnew]
        obtain ⟨-, rfl⟩ : turn.failed.isNone ∧ turn.cursor = d := by
          split at hd
          · next hnone => exact ⟨hnone, by simpa using hd⟩
          · simp at hd
        exact ⟨hturn, hbound⟩
    · intro hsome
      split at hsome
      · next hnone => rw [if_pos hnone, hend (by simpa using hnone)]
      · simp at hsome
  · rw [followCondensedEvents_of_not_text htext]
    exact ⟨h.ended, by simp⟩

theorem Caught.print (h : Caught reader s) (htorn : s.tornLine = false) (hnone : s.follower = none) :
    Caught reader (s.printCondensedEvents reader s.cursor) := by
  unfold EventStream.printCondensedEvents
  cases hlines : readEventsJsonlLines s.file false with
  | error e => exact h
  | ok lines =>
    have hcomplete : lines = completeLines s.file := by
      cases hfile : s.file with
      | none => simpa [readEventsJsonlLines, hfile, completeLines, eq_comm] using hlines
      | some raw =>
        rw [hfile, readEventsJsonlLines] at hlines
        split at hlines
        · have hbody : logLines raw = lines := by simpa [logBody] using hlines
          rw [← hbody]
          simpa [EventStream.tornLine, hfile] using htorn
        · cases hlines
    dsimp only
    cases hread : readFrom (mapCompleteEventLine reader) s.cursor (lines.drop s.cursor) with
    | error e => exact h
    | ok events =>
      obtain ⟨out, hevents, hcursor, -⟩ := h
      subst hcomplete
      refine ⟨out ++ events, ?_, ?_, by simp [hnone]⟩
      · rw [EventStream.events, List.flatMap_append, List.map_append, ← hevents]
        simp [EventStream.events]
      · have hnew : EventStream.cursor { s with
            output := s.output ++ [((completeLines s.file).length, events.map Prod.snd)] } =
              s.cursor + ((completeLines s.file).drop s.cursor).length := by
          rw [EventStream.cursor, lastCursor_append, List.length_drop]
          have := hcursor.1
          simp only [lastCursor, List.getLast?_singleton, Option.map_some, Option.getD_some]
          omega
        rw [hnew]
        exact hcursor.read le_rfl (by rwa [List.take_length])

theorem start_eq (h : s.cursor < 2 ^ 31 ∧ isDir none = true) (follow : Bool) :
    s.start reader isDir follow =
      if follow then { s with follower := some s.cursor }
      else EventStream.printCondensedEvents reader { s with follower := none } s.cursor := by
  rw [EventStream.start, runEventsCommand_commandLine, if_pos h.1, if_pos h.2]
  cases follow <;> rfl

theorem start_refused (h : ¬ (s.cursor < 2 ^ 31 ∧ isDir none = true)) (follow : Bool) :
    s.start reader isDir follow = { s with follower := none } := by
  rw [EventStream.start, runEventsCommand_commandLine]
  by_cases hn : s.cursor < 2 ^ 31
  · rw [if_pos hn, if_neg fun hdir => h ⟨hn, hdir⟩]
  · rw [if_neg hn]

theorem Caught.start (h : Caught reader s) (follow : Bool) (htorn : follow = false → s.tornLine = false) :
    Caught reader (s.start reader isDir follow) := by
  by_cases hrun : s.cursor < 2 ^ 31 ∧ isDir none = true
  · rw [start_eq hrun]
    cases follow with
    | true =>
      obtain ⟨out, hevents, hcursor, -⟩ := h
      refine ⟨out, hevents, hcursor, fun c hc => ?_⟩
      obtain rfl : s.cursor = c := by simpa using hc
      exact ⟨hcursor, le_rfl⟩
    | false => exact h.ended.print (htorn rfl) rfl
  · rw [start_refused hrun]
    exact h.ended

theorem caught {s : EventStream} (h : ((eventStream reader isDir).restrict FinishedSnapshots).Reachable s) :
    Caught reader s := by
  apply h.invariant
  · exact ⟨[], rfl, Written.nil _, by simp [eventStream, System.restrict]⟩
  · rintro s l - hcaught ⟨hen, hfinished⟩
    cases l with
    | append bytes => exact hcaught.append bytes
    | poll =>
      obtain ⟨c, hc⟩ := Option.isSome_iff_exists.1 hen
      simp only [System.restrict, eventStream, hc, Option.elim_some]
      exact (hcaught.follow hc).1
    | resume => exact hcaught.start true (by simp)
    | snapshot => exact hcaught.start false fun _ => hfinished rfl

/-- An event record as the ledger writes it. -/
def eventRecord (event paneId timestamp : String) : Value :=
  .obj [(utf8 "event", .str (utf8 event)), (utf8 "pane_id", .str (utf8 paneId)),
    (utf8 "timestamp", .str (utf8 timestamp))]

def startedEvent : Value := eventRecord "pane.started" "%1" "2026-01-02T03:04:05Z"

/-- Not one of those that are told. -/
def dispatchEvent : Value := eventRecord "operator.dispatch" "%1" "2026-01-02T03:04:06Z"

def idleEvent : Value := eventRecord "pane.idle" "%1" "2026-01-02T03:04:07Z"

def sampleReader : JsonReader := readerOf [startedEvent, dispatchEvent, idleEvent]

def sampleRun (steps : List EventStep) : EventStream :=
  ((eventStream sampleReader fun _ => true).restrict FinishedSnapshots).run ⟨none, none, []⟩ steps

/-- A log that is followed, is printed after two more events, and is followed again. -/
def followedRun : EventStream :=
  sampleRun [.append (startedEvent.toVec ++ [newline]), .resume, .poll,
    .append (dispatchEvent.toVec ++ newline :: idleEvent.toVec ++ [newline]), .snapshot, .resume, .poll]

/-- A log that is followed while its last line is not finished. -/
def tornRun : EventStream :=
  sampleRun [.append (startedEvent.toVec ++ newline :: idleEvent.toVec), .resume, .poll]

theorem followedRun_reachable :
    ((eventStream sampleReader fun _ => true).restrict FinishedSnapshots).Reachable followedRun :=
  System.Reachable.init.run _ (by decide +kernel)

theorem tornRun_reachable :
    ((eventStream sampleReader fun _ => true).restrict FinishedSnapshots).Reachable tornRun :=
  System.Reachable.init.run _ (by decide +kernel)

/-- The client is told of every event of the log once, in the order of the log: at any time of
those in front of some finished line, and of all of them when a follower has had its turn. -/
theorem events_told_once {s : EventStream}
    (h : ((eventStream reader isDir).restrict FinishedSnapshots).Reachable s) :
    (∃ n out, Written (mapCompleteEventLine reader) (completeLines s.file) n out ∧
      s.events = out.map Prod.snd ∧ out.Pairwise (fun d e => d.1 < e.1) ∧
      ∀ i event, (i + 1, event) ∈ out ↔ i < n ∧ ∃ line, (completeLines s.file)[i]? = some line ∧
        mapCompleteEventLine reader i line = .ok (some event)) ∧
    (((eventStream reader isDir).next s .poll).follower.isSome → s.follower.isSome →
      ∃ out, readFrom (mapCompleteEventLine reader) 0 (completeLines s.file) = .ok out ∧
        ((eventStream reader isDir).next s .poll).events = out.map Prod.snd) := by
  have hcaught := caught h
  constructor
  · obtain ⟨out, hevents, hcursor, -⟩ := hcaught
    refine ⟨_, out, hcursor, hevents, (readFrom_increasing hcursor.2).2, fun i event => ?_⟩
    rw [mem_readFrom hcursor.2]
    constructor
    · rintro ⟨j, line, hline, hj, hdecode⟩
      obtain rfl : i = j := by omega
      rw [List.getElem?_take] at hline
      split at hline
      · next hi => exact ⟨hi, line, hline, by rwa [Nat.zero_add] at hdecode⟩
      · cases hline
    · rintro ⟨hi, line, hline, hdecode⟩
      refine ⟨i, line, ?_, by omega, by rwa [Nat.zero_add]⟩
      rwa [List.getElem?_take_of_lt hi]
  · intro hsome hrun
    obtain ⟨c, hc⟩ := Option.isSome_iff_exists.1 hrun
    obtain ⟨hnext, hend⟩ := hcaught.follow hc
    simp only [eventStream, hc, Option.elim_some] at hsome ⊢
    obtain ⟨out, hevents, -, hfollow⟩ := hnext
    obtain ⟨⟨-, hread⟩, -⟩ := hfollow _ (hend hsome)
    have hfile : (s.followCondensedEvents reader c).file = s.file := by
      unfold EventStream.followCondensedEvents
      split <;> rfl
    rw [hfile, List.take_length] at hread
    exact ⟨out, hread, hevents⟩

theorem events_told_once_followed :
    followedRun.events.length = 2 ∧
    (∃ n out, Written (mapCompleteEventLine sampleReader) (completeLines followedRun.file) n out ∧
      followedRun.events = out.map Prod.snd ∧ out.Pairwise fun d e => d.1 < e.1) ∧
    ∃ out, readFrom (mapCompleteEventLine sampleReader) 0 (completeLines followedRun.file) = .ok out ∧
      ((eventStream sampleReader fun _ => true).next followedRun .poll).events = out.map Prod.snd := by
  obtain ⟨⟨n, out, hwritten, hevents, hpair, -⟩, hturn⟩ := events_told_once followedRun_reachable
  exact ⟨by decide +kernel, ⟨n, out, hwritten, hevents, hpair⟩, hturn (by decide +kernel) (by decide +kernel)⟩

/-- When a command to follow the log is started, and when it gets over a turn. -/
theorem follower_runs_iff {s : EventStream}
    (h : ((eventStream reader isDir).restrict FinishedSnapshots).Reachable s) :
    (((eventStream reader isDir).next s .resume).follower.isSome ↔
      s.cursor < 2 ^ 31 ∧ isDir none = true) ∧
    (s.follower.isSome → (((eventStream reader isDir).next s .poll).follower.isSome ↔
      (∀ raw ∈ s.file, IsText raw) ∧ ∀ (i : ℕ) (line : Text), (completeLines s.file)[i]? = some line →
        ∃ event, mapCompleteEventLine reader i line = .ok event)) := by
  constructor
  · simp only [eventStream]
    by_cases hrun : s.cursor < 2 ^ 31 ∧ isDir none = true
    · rw [start_eq hrun, if_pos rfl]
      exact iff_of_true rfl hrun
    · rw [start_refused hrun]
      exact iff_of_false (by simp) hrun
  · intro hrun
    obtain ⟨c, hc⟩ := Option.isSome_iff_exists.1 hrun
    obtain ⟨out, -, -, hfollow⟩ := caught h
    obtain ⟨⟨hle, hread⟩, -⟩ := hfollow c hc
    simp only [eventStream, hc, Option.elim_some]
    simp only [← fromUtf8Lossy_eq_iff]
    by_cases htext : ∀ raw ∈ s.file, fromUtf8Lossy raw = raw
    · rw [followCondensedEvents_eq htext hle]
      have hfailed : (pass (mapCompleteEventLine reader) c ((completeLines s.file).drop c)).failed = none ↔
          ∀ (i : ℕ) (line : Text), (completeLines s.file)[i]? = some line →
            ∃ event, mapCompleteEventLine reader i line = .ok event := by
        rw [pass_failed_iff, Written.readAll_iff ⟨hle, hread⟩, exists_readFrom_iff]
        simp only [Nat.zero_add]
      rw [and_iff_right htext, ← hfailed]
      dsimp only
      split
      · next hnone => simpa using hnone
      · next hnone => simpa using hnone
    · rw [followCondensedEvents_of_not_text htext]
      exact iff_of_false (by simp) fun hall => htext hall.1

theorem follower_runs_iff_followed :
    (∀ raw ∈ followedRun.file, IsText raw) ∧ followedRun.cursor = 3 ∧
      ((eventStream sampleReader fun _ => true).next followedRun .resume).follower.isSome := by
  obtain ⟨hresume, hpoll⟩ := follower_runs_iff followedRun_reachable
  refine ⟨((hpoll (by decide +kernel)).1 (by decide +kernel)).1, by decide +kernel, hresume.2 ⟨?_, rfl⟩⟩
  decide +kernel

theorem printCondensedEvents_eq {raw : Text} (hraw : s.file = some raw) (htext : IsText raw) {c : ℕ}
    {events : List (ℕ × Value)}
    (hread : readFrom (mapCompleteEventLine reader) c ((logLines raw).drop c) = .ok events) :
    s.printCondensedEvents reader c =
      { s with output := s.output ++ [((logLines raw).length, events.map Prod.snd)] } := by
  have hlines : readEventsJsonlLines s.file false = .ok (logLines raw) := by
    rw [hraw, readEventsJsonlLines, if_pos (fromUtf8Lossy_eq_iff.2 htext)]
    rfl
  rw [EventStream.printCondensedEvents, hlines]
  dsimp only
  rw [hread]

/-- A follower that is behind the end of the log begins again. -/
theorem followCondensedEvents_again {raw : Text} (hraw : s.file = some raw) (htext : IsText raw) {c : ℕ}
    (hc : (completeLines s.file).length < c) {told : List (ℕ × Value)}
    (htold : readFrom (mapCompleteEventLine reader) 0 (completeLines s.file) = .ok told) :
    (s.followCondensedEvents reader c).events = s.events ++ told.map Prod.snd := by
  rw [EventStream.followCondensedEvents, readEventsJsonlLines_true,
    if_pos (by simpa [hraw] using fromUtf8Lossy_eq_iff.2 htext)]
  dsimp only
  rw [if_pos hc, List.drop_zero, pass_eq_of_readFrom htold, EventStream.events, List.flatMap_append,
    flatMap_wrappers]
  rfl

/-- A line that was printed before it was finished counts: the follower that is started next
finds fewer lines than its cursor says, and tells the whole log again. -/
theorem torn_line_told_again {s : EventStream}
    (h : ((eventStream reader isDir).restrict FinishedSnapshots).Reachable s) {raw : Text}
    (hraw : s.file = some raw) (htext : IsText raw) (htorn : s.tornLine = true) {all : List (ℕ × Value)}
    (hall : readFrom (mapCompleteEventLine reader) 0 (logLines raw) = .ok all)
    (hdir : isDir none = true) (hcount : (logLines raw).length < 2 ^ 31) :
    ∃ told, readFrom (mapCompleteEventLine reader) 0 (completeLines s.file) = .ok told ∧
      ((eventStream reader isDir).run s [.snapshot, .resume, .poll]).events =
        all.map Prod.snd ++ told.map Prod.snd := by
  obtain ⟨out, hevents, hcursor, -⟩ := caught h
  obtain ⟨line, hline⟩ : ∃ line, logLines raw = completeLines s.file ++ [line] := by
    rw [hraw]
    refine (logLines_eq_or raw).resolve_left fun heq => ?_
    simp [EventStream.tornLine, hraw, heq] at htorn
  have hlength : (logLines raw).length = (completeLines s.file).length + 1 := by simp [hline]
  obtain ⟨told, -, htold, -, -⟩ := readFrom_append.1 (hline ▸ hall)
  have hwritten : Written (mapCompleteEventLine reader) (logLines raw) s.cursor out :=
    hcursor.grow (hline ▸ List.prefix_append ..)
  obtain ⟨w, hw⟩ := hwritten.readAll_iff.2 ⟨all, hall⟩
  have hall' : all = out ++ w := by
    obtain ⟨-, hread⟩ := hwritten.read le_rfl (by rwa [List.take_length])
    rw [List.take_of_length_le (by simp; omega)] at hread
    exact Except.ok.inj (hall.symm.trans hread)
  have hn : s.cursor < 2 ^ 31 := by
    have := hcursor.1
    omega
  refine ⟨told, htold, ?_⟩
  have hsnapshot : (eventStream reader isDir).next s .snapshot =
      ⟨s.file, none, s.output ++ [((logLines raw).length, w.map Prod.snd)]⟩ := by
    simp only [eventStream]
    rw [start_eq ⟨hn, hdir⟩, if_neg Bool.false_ne_true,
      printCondensedEvents_eq (s := ⟨s.file, none, s.output⟩) hraw htext hw]
  have hresume : (eventStream reader isDir).next
      ⟨s.file, none, s.output ++ [((logLines raw).length, w.map Prod.snd)]⟩ .resume =
      ⟨s.file, some (logLines raw).length, s.output ++ [((logLines raw).length, w.map Prod.snd)]⟩ := by
    have hlast : EventStream.cursor
        ⟨s.file, none, s.output ++ [((logLines raw).length, w.map Prod.snd)]⟩ = (logLines raw).length := by
      rw [EventStream.cursor, lastCursor_append]
      rfl
    simp only [eventStream]
    rw [start_eq ⟨by rwa [hlast], hdir⟩, if_pos rfl, hlast]
  rw [System.run, List.foldl_cons, hsnapshot, List.foldl_cons, hresume, List.foldl_cons, List.foldl_nil]
  simp only [eventStream, Option.elim_some]
  rw [followCondensedEvents_again
      (s := ⟨s.file, some (logLines raw).length, s.output ++ [((logLines raw).length, w.map Prod.snd)]⟩)
      hraw htext (by simp only; omega) htold, hall', List.map_append, ← hevents]
  simp [EventStream.events]

theorem torn_line_told_again_torn : ∃ all told : List (ℕ × Value),
    ((eventStream sampleReader fun _ => true).run tornRun [.snapshot, .resume, .poll]).events =
        all.map Prod.snd ++ told.map Prod.snd ∧
      ((eventStream sampleReader fun _ => true).run tornRun [.snapshot, .resume, .poll]).events.length = 3 := by
  have hok : (readFrom (mapCompleteEventLine sampleReader) 0
      (logLines (startedEvent.toVec ++ newline :: idleEvent.toVec))).isOk = true := by
    decide +kernel
  obtain ⟨all, hall⟩ : ∃ all, readFrom (mapCompleteEventLine sampleReader) 0
      (logLines (startedEvent.toVec ++ newline :: idleEvent.toVec)) = .ok all := by
    cases h : readFrom (mapCompleteEventLine sampleReader) 0
        (logLines (startedEvent.toVec ++ newline :: idleEvent.toVec)) with
    | error e =>
      rw [h] at hok
      cases hok
    | ok all => exact ⟨all, rfl⟩
  have hraw : tornRun.file = some (startedEvent.toVec ++ newline :: idleEvent.toVec) := by decide +kernel
  have htext : IsText (startedEvent.toVec ++ newline :: idleEvent.toVec) :=
    fromUtf8Lossy_eq_iff.1 (by decide +kernel)
  obtain ⟨told, -, hevents⟩ := torn_line_told_again tornRun_reachable hraw htext
    (by decide +kernel) hall rfl (by decide +kernel)
  exact ⟨all, told, hevents, by decide +kernel⟩

end

end Winsmux.Ledger.CondensedEvents
