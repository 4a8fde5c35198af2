import Winsmux.Ledger.ExplainAgree
import Winsmux.Ledger.Gates

/-!
# Projections and the order of the log

Several writers append to the log, so its lines do not stand in the order of time. The
digest and the explain view sort the events of a run by their instants. The inbox takes
the last line of each entity, and the digest compares the times of its runs as texts.
-/
namespace Winsmux.Ledger
open Json

/-- The instant of a timestamp, where it is one, and the two texts of an instant in UTC.
The text with nine digits behind the second tells instants apart. -/
structure Clock (τ : Type) where
  parse : Text → Option τ
  nanos : τ → Text
  seconds : τ → Text
  nanos_injective : Function.Injective nanos

/-- `event_timestamp_sort_key` and `event_timestamp_text`. -/
def Clock.calendar {τ : Type} (clock : Clock τ) : Calendar where
  sortKey t := ((clock.parse t).map clock.nanos).getD t
  text t := ((clock.parse t).map clock.seconds).getD t

structure BoardPane where
  label : Text
  paneId : Text
  role : Text
  state : Text
  taskId : Text
  task : Text
  taskState : Text
  reviewState : Text
  runState : RunState
  branch : Text
  worktree : Text
  headSha : Text
  changedFileCount : ℕ
  lastEventAt : Text
  deriving DecidableEq

structure BoardSummary where
  paneCount : ℕ
  dirtyPanes : ℕ
  reviewPending : ℕ
  reviewFailed : ℕ
  reviewPassed : ℕ
  tasksInProgress : ℕ
  tasksBlocked : ℕ
  byState : List (Text × ℕ)
  byReview : List (Text × ℕ)
  byTaskState : List (Text × ℕ)
  deriving DecidableEq

structure BoardProjection where
  summary : BoardSummary
  panes : List BoardPane
  deriving DecidableEq

/-- How many panes there are for each value; a blank one is unknown. -/
def countBy (panes : List Pane) (selector : Pane → Text) : List (Text × ℕ) :=
  panes.foldl (fun counts pane =>
    let value := if trim (selector pane) = [] then utf8 "unknown" else trim (selector pane)
    insertKey value ((counts.lookup value).getD 0 + 1) counts) []

def boardSummary (panes : List Pane) : BoardSummary where
  paneCount := panes.length
  dirtyPanes := panes.countP fun pane => 0 < pane.changedFileCount
  reviewPending := panes.countP fun pane => eqIgnoreAsciiCase pane.reviewState (utf8 "pending")
  reviewFailed := panes.countP fun pane => isReviewFailed pane.reviewState
  reviewPassed := panes.countP fun pane => eqIgnoreAsciiCase pane.reviewState (utf8 "pass")
  tasksInProgress := panes.countP fun pane => pane.taskState = utf8 "in_progress"
  tasksBlocked := panes.countP fun pane => pane.taskState = utf8 "blocked"
  byState := countBy panes Pane.state
  byReview := countBy panes Pane.reviewState
  byTaskState := countBy panes Pane.taskState

def boardPane (pane : Pane) : BoardPane where
  label := pane.label
  paneId := pane.paneId
  role := pane.role
  state := pane.state
  taskId := pane.taskId
  task := pane.task
  taskState := pane.taskState
  reviewState := pane.reviewState
  runState := pane.runState
  branch := pane.branch
  worktree := pane.worktree
  headSha := pane.headSha
  changedFileCount := pane.changedFileCount
  lastEventAt := pane.lastEventAt

def boardProjection (s : Snapshot) : BoardProjection := ⟨boardSummary s.panes, s.panes.map boardPane⟩

/-- The manifest is the same and the log has the same lines, in some order. -/
structure Reordered (s s' : Snapshot) : Prop where
  sessionName : s'.sessionName = s.sessionName
  panes : s'.panes = s.panes
  events : s'.events.Perm s.events

section
variable {τ : Type} (clock : Clock τ) (reader : JsonReader) (lowercase : Text → Text)

/-- Two views of a run say the same, but for the numbers of the events. -/
structure SameView (e e' : ExplainProjection) : Prop where
  run : e'.run = e.run
  evidenceDigest : e'.evidenceDigest = e.evidenceDigest
  recentEvents : e'.recentEvents.map Prod.snd = e.recentEvents.map Prod.snd
  architecture : (e'.gates clock.calendar lowercase).architecture = (e.gates clock.calendar lowercase).architecture
  draftPrGate : (e'.gates clock.calendar lowercase).draftPrGate = (e.gates clock.calendar lowercase).draftPrGate
  tddGate : (e'.gates clock.calendar lowercase).tddGate = (e.gates clock.calendar lowercase).tddGate
  phaseGate : (e'.gates clock.calendar lowercase).phaseGate = (e.gates clock.calendar lowercase).phaseGate
  approval : (e'.gates clock.calendar lowercase).auditChain.approval =
    (e.gates clock.calendar lowercase).auditChain.approval
  auditEvents : (e'.gates clock.calendar lowercase).auditChain.events.map Prod.snd =
    (e.gates clock.calendar lowercase).auditChain.events.map Prod.snd
  envelope : e'.envelope clock.calendar lowercase = e.envelope clock.calendar lowercase

/-- All projections of two snapshots are the same. -/
structure SameProjections (s s' : Snapshot) : Prop where
  board : boardProjection s' = boardProjection s
  inbox : inboxProjection clock.calendar s' = inboxProjection clock.calendar s
  digest : digestProjection clock.calendar s' = digestProjection clock.calendar s
  explain : ∀ runId, Option.Rel (SameView clock lowercase)
    (explainProjection clock.calendar reader s runId) (explainProjection clock.calendar reader s' runId)

/-- Every event has an instant, and no two have the same. -/
structure Dated (events : List EventRecord) : Prop where
  parsed : ∀ e ∈ events, (clock.parse e.timestamp).isSome
  distinct : events.Pairwise fun e f => clock.parse e.timestamp ≠ clock.parse f.timestamp

/-- The runs whose last event has an instant are listed by it, the latest first. -/
def ListedByInstant [LE τ] (items : List DigestItem) : Prop :=
  items.Pairwise fun d d' => ∀ i ∈ clock.parse d.lastEventAt, ∀ i' ∈ clock.parse d'.lastEventAt, i' ≤ i

/-- The key of an item of the inbox. -/
def inboxItemKey (item : InboxItem) : Text :=
  utf8 "events:" ++ item.kind.text ++ utf8 ":" ++ paneKeyBase item.paneId item.label

/-- No event that the inbox acts on shares its entity with another event, or the key of its
item with another such event. -/
def SingleVoiced (events : List EventRecord) : Prop :=
  ∀ e ∈ events, ∀ f ∈ events, e ≠ f → ∀ item ∈ InboxItem.fromEvent e,
    inboxEventEntityKey e ≠ inboxEventEntityKey f ∧
      ∀ item' ∈ InboxItem.fromEvent f, inboxItemKey item ≠ inboxItemKey item'

/-- The time of the last event of a run: that of the first pane that has one. -/
def runLastEventAt (group : List Pane) : Text :=
  match group with
  | [] => []
  | pane :: panes => panes.foldl (fun t pane => setIfEmpty t pane.lastEventAt) pane.lastEventAt

/-- Times of runs that are instants compare as texts as they do as instants. -/
def TextsByInstant [LE τ] (s : Snapshot) : Prop :=
  ∀ pane ∈ s.panes, ∀ pane' ∈ s.panes,
    ∀ i ∈ clock.parse (runLastEventAt (s.group (runIdFromPane pane))),
      ∀ i' ∈ clock.parse (runLastEventAt (s.group (runIdFromPane pane'))),
        rank (runLastEventAt (s.group (runIdFromPane pane))) <
          rank (runLastEventAt (s.group (runIdFromPane pane'))) → i ≤ i'

end

end Winsmux.Ledger
