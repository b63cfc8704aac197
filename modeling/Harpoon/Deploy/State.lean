import Harpoon.Deploy.Ids
import Harpoon.Deploy.Release

/-!
# Deployment records and their state machine

The plain data of `state.rs` and its transition rules. A transition that the record's state does not
allow is refused with a `TransitionError` and changes nothing; one that it allows returns the new
record.

The source keeps a deployment's steps in a vector which it fills with one record for each step, in
`Step.order`, when the deployment is created, and never lengthens, shortens or reorders. `StepTable`
is that vector with the fact in its type: a record for every step.
-/

namespace Harpoon.Deploy

/-! ## Statuses -/

inductive DeploymentStatus where
  | requested
  | queued
  | running
  | succeeded
  | failed
  | cancelled
  /-- The engine stopped while this deployment was in flight. -/
  | interrupted
  /-- A queued request replaced by a newer one. -/
  | superseded
  deriving DecidableEq, Repr

namespace DeploymentStatus

def isTerminal : DeploymentStatus → Bool
  | .requested | .queued | .running => false
  | _ => true

/-- The complete transition relation: what is not listed is refused. -/
def canTransitionTo : DeploymentStatus → DeploymentStatus → Bool
  | .requested, .queued | .requested, .cancelled | .requested, .interrupted => true
  | .queued, .running | .queued, .superseded | .queued, .cancelled | .queued, .interrupted => true
  | .running, .succeeded | .running, .failed | .running, .cancelled | .running, .interrupted => true
  | _, _ => false

end DeploymentStatus

inductive Trigger where
  | manual
  | cli
  | poll
  | webhook
  | rollback
  | promote
  deriving DecidableEq, Repr

/-! ## Steps -/

inductive Step where
  | source
  | build
  | preliminaryCheck
  | cutover
  | finalCheck
  | recovery
  deriving DecidableEq, Repr

def Step.order : List Step := [.source, .build, .preliminaryCheck, .cutover, .finalCheck, .recovery]

theorem Step.mem_order (s : Step) : s ∈ Step.order := by cases s <;> decide

inductive StepStatus where
  | pending
  | running
  | succeeded
  | failed
  | skipped
  | interrupted
  deriving DecidableEq, Repr

structure StepRecord where
  status : StepStatus
  startedMs : Option Nat
  finishedMs : Option Nat
  note : String
  deriving DecidableEq, Repr

/-- One record for each step. -/
structure StepTable where
  record : Step → StepRecord

namespace StepTable

@[ext] theorem ext {a b : StepTable} (h : ∀ s, a.record s = b.record s) : a = b := by
  cases a; cases b; congr; exact funext h

instance : DecidableEq StepTable := fun a b =>
  decidable_of_iff (∀ s ∈ Step.order, a.record s = b.record s)
    ⟨fun h => ext fun s => h s s.mem_order, fun h _ _ => h ▸ rfl⟩

/-- The table before anything ran. -/
def fresh : StepTable := ⟨fun _ => ⟨.pending, none, none, ""⟩⟩

def set (t : StepTable) (s : Step) (r : StepRecord) : StepTable :=
  ⟨fun x => if x = s then r else t.record x⟩

def map (t : StepTable) (f : Step → StepRecord → StepRecord) : StepTable :=
  ⟨fun s => f s (t.record s)⟩

@[simp] theorem record_set (t : StepTable) (s x : Step) (r : StepRecord) :
    (t.set s r).record x = if x = s then r else t.record x := rfl

@[simp] theorem record_map (t : StepTable) (f : Step → StepRecord → StepRecord) (s : Step) :
    (t.map f).record s = f s (t.record s) := rfl

end StepTable

/-! ## Cutover and recovery -/

/-- The cutover journal: written before a healthy release is stopped. -/
inductive CutoverState where
  | notStarted
  /-- There was no previous release to replace. -/
  | notRequired
  | begun (atMs : Nat)
  | confirmed (atMs : Nat)
  /-- Began, and the replacement failed; recovery follows. -/
  | failed (atMs : Nat)
  deriving DecidableEq, Repr

namespace CutoverState

def isBegun : CutoverState → Bool
  | .begun _ => true
  | _ => false

def isConfirmed : CutoverState → Bool
  | .confirmed _ => true
  | _ => false

def isFailed : CutoverState → Bool
  | .failed _ => true
  | _ => false

end CutoverState

/-- Why a restoration was not attempted, or failed. -/
inductive Reason where
  | noPreviousRelease
  | configUnavailable
  | portInUse
  | interrupted
  | imageMissing
  | secretUnavailable
  | dockerUnreachable
  | timeout
  | startFailed
  | cancelled
  deriving DecidableEq, Repr

/-- Outcome of the one bounded restoration attempt. -/
inductive RecoveryOutcome where
  | inProgress
  | restored
  /-- It started, but its check did not pass or was inconclusive. -/
  | restoredUnverified
  | restoreFailed (why : Reason)
  | notAttempted (why : Reason)
  deriving DecidableEq, Repr

namespace RecoveryOutcome

def asStr : RecoveryOutcome → String
  | .inProgress => "in_progress"
  | .restored => "restored"
  | .restoredUnverified => "restored_unverified"
  | .restoreFailed _ => "restore_failed"
  | .notAttempted _ => "not_attempted"

/-- Is a release running again afterwards? -/
def serviceRestored : RecoveryOutcome → Bool
  | .restored | .restoredUnverified => true
  | _ => false

end RecoveryOutcome

structure Recovery where
  outcome : RecoveryOutcome
  startedMs : Nat
  finishedMs : Option Nat
  budgetMs : Nat
  deriving DecidableEq, Repr

/-- Time during which the engine itself had stopped the previous release. -/
structure Interruption where
  startedMs : Nat
  /-- `none`: it is still going on. -/
  endedMs : Option Nat
  deriving DecidableEq, Repr

inductive FailureKind where
  | source
  | build
  | preliminaryCheck
  | cutover
  | finalCheck
  deriving DecidableEq, Repr

structure Failure where
  step : Step
  kind : FailureKind
  message : String
  timedOut : Bool
  deriving DecidableEq, Repr

inductive TransitionError where
  | status (source target : DeploymentStatus)
  | cutover (source : CutoverState) (attempted : String)
  | step (step : Step) (source target : StepStatus)
  deriving DecidableEq, Repr

/-! ## The record -/

structure Deployment where
  id : DeploymentId
  applicationId : ApplicationId
  trigger : Trigger
  status : DeploymentStatus
  createdMs : Nat
  startedMs : Option Nat
  finishedMs : Option Nat
  steps : StepTable
  cutover : CutoverState
  failure : Option Failure
  recovery : Option Recovery
  interruption : Option Interruption
  release : Option ReleaseId
  /-- The configuration needed to recreate this release. -/
  pinned : Option ReleaseConfig
  /-- The release this deployment replaces, recorded by the write that begins the cutover. -/
  replaces : Option ReleaseId
  /-- On a rollback: the earlier release this deployment serves again. -/
  rollbackTo : Option ReleaseId
  deriving DecidableEq

namespace Deployment

def new (id : DeploymentId) (applicationId : ApplicationId) (trigger : Trigger) (nowMs : Nat) :
    Deployment where
  id := id
  applicationId := applicationId
  trigger := trigger
  status := .requested
  createdMs := nowMs
  startedMs := none
  finishedMs := none
  steps := .fresh
  cutover := .notStarted
  failure := none
  recovery := none
  interruption := none
  release := none
  pinned := none
  replaces := none
  rollbackTo := none

def step (d : Deployment) (s : Step) : StepRecord := d.steps.record s

/-- Skip every step that never started. -/
def skipPending (d : Deployment) : Deployment :=
  { d with steps := d.steps.map fun _ r => if r.status = .pending then { r with status := .skipped } else r }

/-- Move between statuses. Entering `running` stamps the start; entering a terminal status stamps
the end and skips the steps that are still pending. -/
def transition (d : Deployment) (target : DeploymentStatus) (nowMs : Nat) :
    Except TransitionError Deployment :=
  if d.status.canTransitionTo target then
    let d := { d with status := target }
    let d := if target = .running then { d with startedMs := some nowMs } else d
    .ok (if target.isTerminal then { d with finishedMs := some nowMs }.skipPending else d)
  else
    .error (.status d.status target)

def startStep (d : Deployment) (s : Step) (nowMs : Nat) : Except TransitionError Deployment :=
  let r := d.step s
  if r.status = .pending then
    .ok { d with steps := d.steps.set s { r with status := .running, startedMs := some nowMs } }
  else
    .error (.step s r.status .running)

def finishStep (d : Deployment) (s : Step) (ok : Bool) (note : String) (nowMs : Nat) :
    Except TransitionError Deployment :=
  let target := if ok then .succeeded else .failed
  let r := d.step s
  if r.status = .running then
    .ok { d with steps := d.steps.set s { r with status := target, finishedMs := some nowMs, note := note } }
  else
    .error (.step s r.status target)

def beginCutover (d : Deployment) (nowMs : Nat) : Except TransitionError Deployment :=
  match d.cutover with
  | .notStarted => .ok { d with cutover := .begun nowMs, interruption := some ⟨nowMs, none⟩ }
  | source => .error (.cutover source "begin cutover")

def cutoverNotRequired (d : Deployment) : Except TransitionError Deployment :=
  match d.cutover with
  | .notStarted => .ok { d with cutover := .notRequired }
  | source => .error (.cutover source "mark cutover not required")

/-- The interruption, ended now. -/
def endInterruption (d : Deployment) (nowMs : Nat) : Deployment :=
  { d with interruption := d.interruption.map fun i => { i with endedMs := some nowMs } }

def confirmCutover (d : Deployment) (nowMs : Nat) : Except TransitionError Deployment :=
  match d.cutover with
  | .begun _ => .ok ({ d with cutover := .confirmed nowMs }.endInterruption nowMs)
  | source => .error (.cutover source "confirm cutover")

def failCutover (d : Deployment) (nowMs : Nat) : Except TransitionError Deployment :=
  match d.cutover with
  | .begun _ => .ok { d with cutover := .failed nowMs }
  | source => .error (.cutover source "fail cutover")

def startRecovery (d : Deployment) (budgetMs nowMs : Nat) : Except TransitionError Deployment :=
  match d.cutover, d.recovery with
  | .failed _, none => .ok { d with recovery := some ⟨.inProgress, nowMs, none, budgetMs⟩ }
  | source, _ => .error (.cutover source "start recovery")

/-- Whether the explicit restoration may still be made: an interrupted deployment whose cutover
began and which has no recorded attempt. -/
def canRecoverExplicitly (d : Deployment) : Bool :=
  d.status = .interrupted && d.cutover.isBegun && d.recovery.isNone
    && (d.step .recovery).status = .skipped

def explicitRecovery : String :=
  "explicit recovery (needs an interrupted deployment whose cutover began and has no recovery yet)"

def beginExplicitRecovery (d : Deployment) (budgetMs nowMs : Nat) :
    Except TransitionError Deployment :=
  if d.canRecoverExplicitly then do
    let d ← d.failCutover nowMs
    let r := d.step .recovery
    let d := { d with
      steps := d.steps.set .recovery { r with status := .running, startedMs := some nowMs, finishedMs := none } }
    d.startRecovery budgetMs nowMs
  else
    .error (.cutover d.cutover explicitRecovery)

/-- Record the final recovery outcome. If service is back, the interruption ends now. -/
def finishRecovery (d : Deployment) (outcome : RecoveryOutcome) (nowMs : Nat) :
    Except TransitionError Deployment :=
  match d.recovery with
  | some r =>
    if r.outcome = .inProgress ∧ outcome ≠ .inProgress then
      let d := { d with recovery := some { r with outcome := outcome, finishedMs := some nowMs } }
      .ok (if outcome.serviceRestored then d.endInterruption nowMs else d)
    else
      .error (.cutover d.cutover "finish recovery")
  | none => .error (.cutover d.cutover "finish recovery")

/-- Could the application be down because of this deployment? A cutover began and no running
release is confirmed afterwards. -/
def applicationMayBeDown (d : Deployment) : Bool :=
  match d.cutover with
  | .begun _ => true
  | .failed _ => !(d.recovery.any fun r => r.outcome.serviceRestored)
  | _ => false

end Deployment

/-! ## Startup recovery -/

structure StartupReport where
  /-- Deployments newly marked interrupted. -/
  interrupted : List DeploymentId
  /-- Of those, the ones whose cutover began with no healthy release confirmed. -/
  incompleteCutovers : List DeploymentId
  deriving DecidableEq, Repr

/-- A restoration that died part-way: its attempt was made, and its result is unknown. -/
def closeUnfinishedRecovery (d : Deployment) (nowMs : Nat) : Deployment :=
  { d with
    recovery := d.recovery.map fun r =>
      if r.outcome = .inProgress then
        { r with outcome := .restoreFailed .interrupted, finishedMs := some nowMs }
      else r
    steps := d.steps.map fun s r =>
      if s = .recovery ∧ r.status = .running then
        { r with status := .interrupted, finishedMs := some nowMs }
      else r }

/-- The steps that were running, marked interrupted. -/
def interruptRunningSteps (d : Deployment) (nowMs : Nat) : Deployment :=
  { d with steps := d.steps.map fun _ r =>
    if r.status = .running then { r with status := .interrupted, finishedMs := some nowMs } else r }

/-- What startup makes of one deployment: the record, and whether it was newly marked
interrupted. -/
def recoverDeployment (d : Deployment) (nowMs : Nat) : Deployment × Bool :=
  if d.status.isTerminal then
    (if d.status = .interrupted then closeUnfinishedRecovery d nowMs else d, false)
  else
    let d := closeUnfinishedRecovery (interruptRunningSteps d nowMs) nowMs
    match d.transition .interrupted nowMs with
    | .ok d => (d, true)
    -- The source's `expect`: every status that is not terminal may be interrupted.
    | .error _ => (d, true)

/-- Mark every deployment that is not terminal interrupted, and say which of them may have left
their application down. -/
def recoverOnStart : List Deployment → Nat → List Deployment × StartupReport
  | [], _ => ([], ⟨[], []⟩)
  | d :: ds, nowMs =>
    let (d, marked) := recoverDeployment d nowMs
    let (ds, report) := recoverOnStart ds nowMs
    (d :: ds,
      if marked then
        { interrupted := d.id :: report.interrupted
          incompleteCutovers :=
            if d.applicationMayBeDown then d.id :: report.incompleteCutovers
            else report.incompleteCutovers }
      else report)

end Harpoon.Deploy
