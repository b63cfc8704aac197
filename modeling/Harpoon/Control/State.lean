import Harpoon.Control.Records
import Harpoon.Keyed.Table
import Harpoon.Deploy.State

/-!
# What the control records say

`ControlState` is rebuilt by applying the control records in order; a record that contradicts the
state so far is refused and changes nothing (`control.rs`). Two events of one application never have
the same delivery id, so the events are a table with that key.

Which deployments cause a pause is read off the deployment records alone (`pauseCandidates`); a pause
is in force until a decision clears it.
-/

namespace Harpoon.Control

open Deploy

/-! ## Events -/

inductive EventStatus where
  | held
  /-- Chosen by a decision; nothing has run. -/
  | selected
  | dismissed
  | superseded (why : SupersededWhy)
  /-- The source executor deployed it. -/
  | executed
  /-- The source executor could not deploy it. -/
  | failed
  deriving DecidableEq, Repr

namespace EventStatus

def asStr : EventStatus → String
  | .held => "held"
  | .selected => "selected"
  | .dismissed => "dismissed"
  | .superseded _ => "superseded"
  | .executed => "executed"
  | .failed => "failed"

/-- Waiting to be executed. -/
def isWaiting : EventStatus → Bool
  | .held | .selected => true
  | .dismissed | .superseded _ | .executed | .failed => false

end EventStatus

structure Event where
  record : EventRec
  status : EventStatus
  /-- When it was settled, if it was. -/
  decidedMs : Option Nat
  /-- For a superseded event, the delivery id of the selected one. For an executed event its
  deployment, for a failed one the reason. -/
  related : Option String
  deriving DecidableEq, Repr

/-- What an event is found by. -/
abbrev EventKey := ApplicationId × String

namespace Event

def key (e : Event) : EventKey := (e.record.app, e.record.delivery)

/-- A new event, held. -/
def hold (r : EventRec) : Event := ⟨r, .held, none, none⟩

/-- Decide what becomes of an event. -/
def settle (status : EventStatus) (atMs : Nat) (e : Event) : Event :=
  { e with status := status, decidedMs := some atMs }

/-- Decide, and say what the event is related to. -/
def settleBy (status : EventStatus) (atMs : Nat) (related : Option String) (e : Event) : Event :=
  { e.settle status atMs with related := related }

theorem key_settle {status : EventStatus} {atMs : Nat} (e : Event) : (e.settle status atMs).key = e.key :=
  rfl

theorem key_settleBy {status : EventStatus} {atMs : Nat} {related : Option String} (e : Event) :
    (e.settleBy status atMs related).key = e.key := rfl

theorem record_settle {status : EventStatus} {atMs : Nat} (e : Event) :
    (e.settle status atMs).record = e.record := rfl

theorem record_settleBy {status : EventStatus} {atMs : Nat} {related : Option String} (e : Event) :
    (e.settleBy status atMs related).record = e.record := rfl

end Event

abbrev Events := Keyed.Table Event.key

/-! ## The state -/

structure ControlState where
  pauses : List PauseRec
  events : Events
  resumes : List ResumeRec
  execs : List ExecRec
  deriving DecidableEq

namespace ControlState

/-- No record yet. -/
def new : ControlState := ⟨[], .empty, [], []⟩

def event (s : ControlState) (app : ApplicationId) (delivery : String) : Option Event :=
  s.events.find (app, delivery)

def eventsOf (s : ControlState) (app : ApplicationId) : List Event :=
  s.events.rows.filter fun e => e.record.app = app

def held (s : ControlState) (app : ApplicationId) : List Event :=
  (s.eventsOf app).filter fun e => e.status = .held

def pendingSelection (s : ControlState) (app : ApplicationId) : Option Event :=
  (s.eventsOf app).find? fun e => e.status = .selected

def pauseOf (s : ControlState) (origin : DeploymentId) : Option PauseRec :=
  s.pauses.find? fun p => p.origin = origin

def isCleared (s : ControlState) (origin : DeploymentId) : Bool :=
  s.resumes.any fun r => r.cleared.contains origin

/-! ### An execution -/

def unrecordedExec (x : ExecRec) : String :=
  s!"an execution names delivery {x.delivery}, which is not recorded for {x.app}"

/-- The superseded events, checked against the executed one. -/
def checkReplaced (s : ControlState) (x : ExecRec) (chosen : Event) : List String → Except String Unit
  | [] => .ok ()
  | d :: ds =>
    match s.event x.app d with
    | none => .error s!"an execution supersedes delivery {d}, which is not recorded"
    | some e =>
      if d = x.delivery ∨ e.status ≠ .held then
        .error s!"superseded delivery {d} is not held"
      else if e.record.receivedMs > chosen.record.receivedMs then
        .error s!"delivery {d} is newer than the one executed, so it cannot be superseded by it"
      else checkReplaced s x chosen ds

def outcomeAgrees (x : ExecRec) : Bool :=
  match x.outcome, x.deployment with
  | .deployed, some _ | .failed, none => true
  | .deployed, none | .failed, some _ => false

def checkExec (s : ControlState) (x : ExecRec) : Except String Unit :=
  match s.event x.app x.delivery with
  | none => .error (unrecordedExec x)
  | some e =>
    if !e.status.isWaiting then
      .error s!"delivery {x.delivery} is {e.status.asStr}, not waiting to be executed"
    else if !outcomeAgrees x then
      .error "an execution's outcome and deployment disagree"
    else s.checkReplaced x e x.superseded

def execStatus : ExecOutcome → EventStatus
  | .deployed => .executed
  | .failed => .failed

/-- What the executed event is related to. -/
def execRelated (x : ExecRec) : String :=
  match x.deployment with
  | some d => d.asStr
  | none => x.reason

def settleExec (s : ControlState) (x : ExecRec) : ControlState :=
  let chosen := s.events.change (x.app, x.delivery)
    (.settleBy (execStatus x.outcome) x.atMs (some (execRelated x))) Event.key_settleBy
  { s with
    events := chosen.changeEach (fun d => (x.app, d))
      (fun _ => .settleBy (.superseded .newerSelected) x.atMs (some x.delivery))
      (fun _ => Event.key_settleBy) x.superseded
    execs := s.execs ++ [x] }

def applyExec (s : ControlState) (x : ExecRec) : Except String ControlState := do
  s.checkExec x
  return s.settleExec x

/-! ### A decision -/

def unrecorded (x : ResumeRec) (d : String) : String :=
  s!"a decision names delivery {d}, which is not recorded for {x.app}"

/-- The shape of the decision: a dismissal supersedes nothing; a selection neither clears nor
dismisses, and needs that none is pending. -/
def checkShape (s : ControlState) (x : ResumeRec) : Except String Unit :=
  match x.choice, x.selected with
  | .dismiss, none =>
    if x.superseded ≠ [] then .error "a dismissal supersedes nothing" else .ok ()
  | .newest, some _ | .revision _, some _ =>
    if x.cleared ≠ [] ∨ x.dismissed ≠ [] then
      .error "a selection neither clears a pause nor dismisses events"
    else if (s.pendingSelection x.app).isSome then
      .error "a selection is already pending for this application"
    else .ok ()
  | .dismiss, some _ | .newest, none | .revision _, none =>
    .error "a decision's choice and selection disagree"

def mayDismiss (x : ResumeRec) (e : Event) : Bool :=
  e.status = .held || (e.status = .selected && x.choice = .dismiss)

def checkDismissed (s : ControlState) (x : ResumeRec) : List String → Except String Unit
  | [] => .ok ()
  | d :: ds =>
    match s.event x.app d with
    | none => .error (unrecorded x d)
    | some e =>
      if mayDismiss x e then checkDismissed s x ds
      else .error s!"delivery {d} is {e.status.asStr}, not held"

def checkPending (s : ControlState) (x : ResumeRec) : Except String Unit :=
  match s.pendingSelection x.app with
  | some p =>
    if x.choice = .dismiss ∧ !x.dismissed.contains p.record.delivery then
      .error "a dismissal must also dismiss the pending selection"
    else .ok ()
  | none => .ok ()

def checkSelected (s : ControlState) (x : ResumeRec) : Except String Unit :=
  match x.selected with
  | none => .ok ()
  | some d =>
    match s.event x.app d with
    | none => .error (unrecorded x d)
    | some e => if e.status ≠ .held then .error s!"selected delivery {d} is not held" else .ok ()

def checkSuperseded (s : ControlState) (x : ResumeRec) : List (String × SupersededWhy) → Except String Unit
  | [] => .ok ()
  | (d, _) :: ds =>
    match s.event x.app d with
    | none => .error (unrecorded x d)
    | some e =>
      if e.status ≠ .held ∨ x.selected = some d then .error s!"superseded delivery {d} is not held"
      else checkSuperseded s x ds

/-- The decision names the event. -/
def accounts (x : ResumeRec) (d : String) : Bool :=
  x.dismissed.contains d || (x.superseded.map (·.1)).contains d || x.selected = some d

/-- A decision must account for every held event of the application. -/
def checkAccounted (s : ControlState) (x : ResumeRec) : Except String Unit :=
  match (s.held x.app).find? fun e => !accounts x e.record.delivery with
  | some e => .error s!"a decision leaves held delivery {e.record.delivery} unaccounted for"
  | none => .ok ()

def checkResume (s : ControlState) (x : ResumeRec) : Except String Unit := do
  s.checkShape x
  s.checkDismissed x x.dismissed
  s.checkPending x
  s.checkSelected x
  s.checkSuperseded x x.superseded
  s.checkAccounted x

def settleResume (s : ControlState) (x : ResumeRec) : ControlState :=
  let dismissed := s.events.changeEach (fun d => (x.app, d)) (fun _ => .settle .dismissed x.atMs)
    (fun _ => Event.key_settle) x.dismissed
  let selected := dismissed.changeEach (fun d => (x.app, d)) (fun _ => .settle .selected x.atMs)
    (fun _ => Event.key_settle) x.selected.toList
  { s with
    events := selected.changeEach (fun p => (x.app, p.1))
      (fun p => .settleBy (.superseded p.2) x.atMs x.selected) (fun _ => Event.key_settleBy) x.superseded
    resumes := s.resumes ++ [x] }

def applyResume (s : ControlState) (x : ResumeRec) : Except String ControlState := do
  s.checkResume x
  return s.settleResume x

/-! ### Any record -/

def recordedTwice (old : Event) (e : EventRec) : String :=
  s!"delivery {e.delivery} of application {e.app} is recorded twice" ++
    if old.record = e then "" else " with different content"

def applyPause (s : ControlState) (p : PauseRec) : Except String ControlState :=
  if s.pauses.any fun x => x.origin = p.origin then
    .error s!"pause for deployment {p.origin} is recorded twice"
  else .ok { s with pauses := s.pauses ++ [p] }

def applyEvent (s : ControlState) (e : EventRec) : Except String ControlState :=
  match free : s.events.find (Event.hold e).key with
  | some old => .error (recordedTwice old e)
  | none => .ok { s with events := s.events.push (.hold e) free }

/-- Apply one record, refusing any that contradicts the state so far. -/
def apply (s : ControlState) : ControlRecord → Except String ControlState
  | .pause p => s.applyPause p
  | .event e => s.applyEvent e
  | .resume x => s.applyResume x
  | .exec x => s.applyExec x

/-- Rebuild from the records. -/
def replay (s : ControlState) : List ControlRecord → Except String ControlState
  | [] => .ok s
  | r :: rs => do
    let s ← s.apply r
    s.replay rs

end ControlState

/-! ## Pauses -/

structure PauseCandidate where
  app : ApplicationId
  origin : DeploymentId
  kind : PauseKind
  atMs : Nat
  context : String
  deriving DecidableEq, Repr

/-- What a deployment recorded of its recovery, as text. -/
def recoveryContext (d : Deployment) : String :=
  match d.recovery with
  | some r => s!"recovery {r.outcome.asStr}"
  | none => "no recovery recorded"

/-- The pause a deployment causes: its cutover began and did not end in a confirmed new release, or it
is a successful manual rollback. -/
def pauseCandidate (d : Deployment) : Option PauseCandidate :=
  match d.cutover with
  | .begun atMs => some ⟨d.applicationId, d.id, .interruptedCutover, atMs, recoveryContext d⟩
  | .failed atMs => some ⟨d.applicationId, d.id, .failedCutover, atMs, recoveryContext d⟩
  | .notStarted | .notRequired | .confirmed _ =>
    match d.rollbackTo, d.status with
    | some t, .succeeded =>
      some ⟨d.applicationId, d.id, .rollback, d.finishedMs.getD d.createdMs, s!"rolled back to {t}"⟩
    | _, _ => none

def pauseCandidates (deployments : List Deployment) : List PauseCandidate :=
  deployments.filterMap pauseCandidate

/-- A pause in force: caused by a deployment and not cleared by any decision. -/
structure ActivePause where
  app : ApplicationId
  origin : DeploymentId
  kind : PauseKind
  sinceMs : Nat
  context : String
  /-- Whether a pause record exists. -/
  recorded : Bool
  deriving DecidableEq, Repr

def activePause (ctl : ControlState) (c : PauseCandidate) : ActivePause :=
  match ctl.pauseOf c.origin with
  | some p => ⟨c.app, c.origin, p.kind, p.atMs, p.context, true⟩
  | none => ⟨c.app, c.origin, c.kind, c.atMs, c.context, false⟩

def activePauses (deployments : List Deployment) (ctl : ControlState) : List ActivePause :=
  ((pauseCandidates deployments).filter fun c => !ctl.isCleared c.origin).map (activePause ctl)

def isPaused (app : ApplicationId) (deployments : List Deployment) (ctl : ControlState) : Bool :=
  (activePauses deployments ctl).any fun p => p.app = app

/-! ## The cross-check with the deployments -/

/-- May the recorded pause stand for what the deployment says now? An interrupted cutover that was
later recorded as failed is the one legitimate change: the pause then has the time at which the
cutover began. -/
def compatible (p : PauseRec) (c : PauseCandidate) (started : Option Nat) : Bool :=
  if p.kind = c.kind then p.atMs = c.atMs
  else p.kind = .interruptedCutover && c.kind = .failedCutover && started = some p.atMs

namespace ControlState

/-- When the cutover of a deployment began, as its record says. -/
def startedMs (deployments : List Deployment) (origin : DeploymentId) : Option Nat :=
  (deployments.find? fun d => d.id = origin).bind fun d => d.interruption.map (·.startedMs)

def checkPause (deployments : List Deployment) (p : PauseRec) : Except String Unit :=
  match (pauseCandidates deployments).find? fun c => c.origin = p.origin ∧ c.app = p.app with
  | none => .error s!"pause names deployment {p.origin}, which did not cause a pause of {p.app}"
  | some c =>
    if compatible p c (startedMs deployments p.origin) then .ok ()
    else
      .error s!"pause for deployment {p.origin} ({p.kind.asStr} at {p.atMs}) contradicts its deployment record ({c.kind.asStr} at {c.atMs})"

def checkExecuted (deployments : List Deployment) (x : ExecRec) : Except String Unit :=
  match x.deployment with
  | none => .ok ()
  | some d =>
    if deployments.any fun dep => dep.id = d ∧ dep.applicationId = x.app then .ok ()
    else .error s!"an execution names deployment {d}, which is not a deployment of {x.app}"

def checkCleared (deployments : List Deployment) (r : ResumeRec) : Except String Unit :=
  match r.cleared.find? fun o => !(pauseCandidates deployments).any fun c => c.origin = o ∧ c.app = r.app with
  | some o => .error s!"a decision clears {o}, which did not cause a pause of {r.app}"
  | none => .ok ()

/-- Every decision refers to deployments that exist and that really caused a pause. -/
def checkAgainst (s : ControlState) (deployments : List Deployment) : Except String Unit := do
  s.pauses.forM (checkPause deployments)
  s.execs.forM (checkExecuted deployments)
  s.resumes.forM (checkCleared deployments)

end ControlState

end Harpoon.Control
