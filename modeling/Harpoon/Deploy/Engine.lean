import Harpoon.Deploy.Reconcile

/-!
# The deployment lifecycle driver

The run of one deployment and the explicit restoration of an interrupted cutover (`engine.rs`). The
code is the source's, function by function, over the signature `EngineSig`; `Run` is its state. What a
run never changes (its configuration, and the release it replaces) is a parameter.

The source returns early from `run_deployment_confirmed` in many places, each time through `finish`.
Here the run is `drive`, which just ends, and `finish` comes after it.
-/

namespace Harpoon.Deploy

open Interact

structure Run where
  d : Deployment
  ledger : Ledger
  evidence : List (Step × CheckEvidence)
  logs : List (Step × LogCapture)
  warnings : List String
  unaccounted : List Observed
  prepared : Option Prepared

/-- What a call of the backend came to. -/
structure Outcome (α : Type) where
  /-- What the engine trusts: an error, or a value that came in time. -/
  res : Except StepError α
  elapsed : Nat
  /-- What the call returned, in time or not. -/
  got : Option α

abbrev RunM (α : Type) := Engine Run EngineError α

abbrev StepFn (α : Type) := Engine StepIo StepError α

namespace Run

/-- Use the ledger of the run. -/
def onLedger {α : Type} (x : Engine Ledger EngineError α) : RunM α :=
  Process.zoom Run.ledger (fun ledger r => { r with ledger }) x

/-- Request a transition of the deployment. -/
def change (f : Deployment → Except TransitionError Deployment) : RunM Unit := do
  let r ← get
  match f r.d with
  | .ok d => set { r with d }
  | .error e => throw (.transition e)

def setFailure (step : Step) (kind : FailureKind) (message : String) (timedOut : Bool) : RunM Unit :=
  modify fun r => { r with d := { r.d with failure := some ⟨step, kind, message, timedOut⟩ } }

def warn (warnings : List String) : RunM Unit :=
  modify fun r => { r with warnings := r.warnings ++ warnings }

def save : RunM Unit := do
  let r ← get
  match ← ask (.persist r.d) with
  | .acknowledged => pure ()
  | .failed e _ => throw (.journal e)

section

variable (cfg : RunConfig) {α : Type}

/-- Keep the log of a call. A capture that was withheld is kept: the record says the output
exists. -/
def keepLog (step : Step) (cap : LogCapture) : RunM Unit :=
  modify fun r =>
    if 0 < cap.summary.linesSeen ∨ cap.summary.withheld then
      { r with logs := r.logs ++ [(step, cap)] }
    else r

def lateMessage (elapsed budget : Nat) : String :=
  s!"the step finished after {elapsed} ms, past its {budget} ms budget; its result is not trusted"

/-- Call the backend with a fresh log sink and the step's deadline. A journal failure inside the step
aborts the run; a result that arrives past the budget becomes a timeout. -/
def exec (step : Step) (budget : Nat) (f : StepFn α) : RunM (Outcome α) := do
  let start ← now
  let r ← get
  let (res, io) ← Process.embed f
    ⟨budget, .new cfg.logLimits cfg.redactor, r.ledger, r.d.applicationId, r.d.id⟩
  modify fun r => { r with ledger := io.ledger }
  let elapsed := (← now) - start
  keepLog step io.log.capture
  match res with
  | .error e =>
    match e.fatal with
    | some j => throw (.journal j)
    | none => return ⟨.error e, elapsed, none⟩
  | .ok v =>
    if elapsed > budget then
      return ⟨.error (.timeout (lateMessage elapsed budget)), elapsed, some v⟩
    else return ⟨.ok v, elapsed, some v⟩

def simulatedMessage : String :=
  "the check returned simulated evidence; a real backend cannot establish health from it"

/-- A check that "passed" must say so in its evidence. -/
def judge (res : Except StepError CheckEvidence) (acceptsSimulated : Bool) :
    Except StepError (Option CheckEvidence) :=
  match res with
  | .ok ev =>
    if ev.simulated && !acceptsSimulated then
      .error ((StepError.new simulatedMessage).withEvidence ev)
    else
      match ev.validate with
      | .ok () => .ok (some ev)
      | .error why =>
        .error ((StepError.new s!"the check did not establish health: {why}").withEvidence ev)
  | .error e => .error e

/-- Does `needle` occur in the text? -/
def isInfix (needle : List Char) : List Char → Bool
  | [] => needle.isEmpty
  | c :: rest => needle.isPrefixOf (c :: rest) || isInfix needle rest

def describe (step : Step) (e : StepError) (elapsed budget : Nat) : RunM String := do
  let redacted := (cfg.redactor.apply e.message).1
  let msg :=
    if e.timedOut then s!"timed out after {elapsed} ms (budget {budget} ms): {redacted}" else redacted
  match e.evidence with
  | some ev =>
    let summary := ev.summary
    -- A backend that already put the summary in its message is not told it twice.
    let msg := if isInfix summary.toList msg.toList then msg else s!"{msg} ({summary})"
    modify fun r => { r with evidence := r.evidence ++ [(step, ev)] }
    return msg
  | none => return msg

/-- The durable note of a check that passed. -/
def evidenceNote (ev : CheckEvidence) : String :=
  let mark := if ev.simulated then " (simulated)" else ""
  let seen := ev.summaryWithAttribution
  s!"health evidence{mark}: {seen}"

def noteOf (ev : Option CheckEvidence) : String := (ev.map evidenceNote).getD ""

/-- Keep the evidence of a check that passed. -/
def keepEvidence (step : Step) (ev : Option CheckEvidence) : RunM Unit :=
  modify fun r => { r with evidence := r.evidence ++ (ev.map fun ev => (step, ev)).toList }

def endCancelled : RunM Unit := do
  let at_ ← now
  change (·.transition .cancelled at_)
  save

def succeed : RunM Unit := do
  let at_ ← now
  change (·.transition .succeeded at_)
  save

/-! ## Before the cutover -/

/-- The entries that the preliminary check added and that do not outlive it. -/
def preliminaryTargets (ledger : Ledger) (dep : DeploymentId) (firstNew : Nat) : List ResourceKey :=
  ((ledger.entries.drop firstNew).filter fun e =>
    e.deployment = dep && e.disposition = .removeAlways).map Entry.key

/-- The planned actions about the targets. -/
def targetActions (targets : List ResourceKey) (planned : List Action) : List Action :=
  planned.filter fun a => a.target?.any fun entry => targets.contains entry.2

/-- The runtime could not be listed: object targets have a failed cleanup, leases are released. -/
def failTargets (why : String) : List Action → Engine Ledger EngineError Unit
  | [] => return ()
  | .markAbsent entry :: actions | .adopt entry _ :: actions | .remove entry _ _ :: actions => do
    attempt entry
    settle entry (couldNotList why)
    failTargets why actions
  | other :: actions => do
    let _ ← executeActions [other]
    failTargets why actions

def stuckTargets (ledger : Ledger) (dep : DeploymentId) (targets : List ResourceKey) : List String :=
  ((targets.filterMap (ledger.find dep)).filter fun e => !e.isReleased).map fun e =>
    s!"{e.key.kind.asStr} {e.key.name}"

/-- What is said of targets that could not be removed. -/
def stuckMessage (stuck : List String) : Option String :=
  if stuck.isEmpty then none
  else
    let names := String.intercalate ", " stuck
    some s!"could not remove the preliminary check's resources before cutover ({names}); nothing was cut over"

/-- Carry out what is planned about the targets, given what the runtime listed. -/
def releaseTargets (dep : DeploymentId) (targets : List ResourceKey) :
    Except StepError (List Observed) → Engine Ledger EngineError Unit
  | .ok observed => do
    let ledger ← get
    let _ ← executeActions (targetActions targets (plan ledger observed [(dep, .succeeded)]))
  | .error e => do
    let ledger ← get
    failTargets e.message (targetActions targets (plan ledger [] [(dep, .succeeded)]))

/-- Remove what the preliminary check created, through the same plan, labels and records as any
cleanup. Returns a description of anything that could not be removed. -/
def releasePreliminary (dep : DeploymentId) (firstNew : Nat) :
    Engine Ledger EngineError (Option String) := do
  let ledger ← get
  let targets := preliminaryTargets ledger dep firstNew
  if targets.isEmpty then return none
  else
    let listed ← ask .listResources
    releaseTargets dep targets listed
    let ledger ← get
    return stuckMessage (stuckTargets ledger dep targets)

/-- The preliminary container and its test port must be gone before the cutover begins. -/
def settlePreliminary {β : Type} (firstNew : Nat) (res : Except StepError β) :
    RunM (Except StepError β) := do
  let r ← get
  match ← onLedger (releasePreliminary r.d.id firstNew), res with
  | some problem, .ok _ => return .error (.new problem)
  | some problem, .error e =>
    warn [problem]
    return .error e
  | none, res => return res

/-- The deployment ends failed, with nothing stopped. -/
def endFailed (step : Step) (kind : FailureKind) (message : String) (timedOut : Bool) (at_ : Nat) :
    RunM Unit := do
  setFailure step kind message timedOut
  change (·.transition .failed at_)
  save

/-- A build makes the deployment's own release. -/
def releaseOf (step : Step) (r : Run) : Run :=
  if step = .build then { r with d := { r.d with release := some (.fromDeployment r.d.id) } } else r

/-- Record how a pre-cutover step went. `true`: continue; `false`: the deployment ended. -/
def endStep (step : Step) (kind : FailureKind) (elapsed : Nat) :
    Except StepError (Option CheckEvidence) → RunM Bool
  | .ok ev => do
    let at_ ← now
    keepEvidence step ev
    change (·.finishStep step true (noteOf ev) at_)
    modify (releaseOf step)
    save
    return true
  | .error e => do
    let at_ ← now
    let message ← describe cfg step e elapsed (cfg.budgets.forStep step)
    change (·.finishStep step false message at_)
    endFailed step kind message e.timedOut at_
    return false

/-- Run one pre-cutover step. `true`: continue; `false`: the deployment ended. -/
def preStep (step : Step) (kind : FailureKind) (f : StepFn (Option CheckEvidence)) : RunM Bool := do
  if ← ask .cancel then
    endCancelled
    return false
  else
    let at_ ← now
    change (·.startStep step at_)
    save -- before the side effect
    let firstNew := (← get).ledger.entries.length
    let out ← exec cfg step (cfg.budgets.forStep step) f
    if step = .preliminaryCheck then
      let res ← settlePreliminary firstNew out.res
      endStep cfg step kind out.elapsed res
    else endStep cfg step kind out.elapsed out.res

/-- `prepare_source` and `build` give no evidence. -/
def plainStep (c : Call) : StepFn (Option CheckEvidence) := do
  let _ ← StepIo.callBackend c
  return none

def preliminaryStep : StepFn (Option CheckEvidence) := do
  let res ← Process.attempt (StepIo.callBackend .preliminaryCheck)
  let accepts ← ask .acceptsSimulatedEvidence
  Process.ofExcept id (judge res accepts)

/-- Decide the new release's configuration and pin it durably before anything is created or
stopped. `false`: the plan could not be made and the deployment has ended. -/
def planAndPin : RunM Bool := do
  let budget := cfg.budgets.cutoverMs
  let out ← exec cfg .cutover budget (StepIo.callBackend .planRelease)
  match out.res with
  | .ok (some config) =>
    modify fun r => { r with d := { r.d with pinned := some config } }
    save
    return true
  | .ok none => return true
  | .error e =>
    let message ← describe cfg .cutover e out.elapsed budget
    let at_ ← now
    endFailed .cutover .cutover message e.timedOut at_
    return false

/-! ## The cutover -/

/-- What the new release actually runs with, if that differs from the plan, is pinned at once. -/
def repin : RunM Unit := do
  match ← ask .pinnedConfig with
  | some actual =>
    if (← get).d.pinned ≠ some actual then
      modify fun r => { r with d := { r.d with pinned := some actual } }
      save
  | none => pure ()

/-- A failed call, as the message and whether it timed out. -/
def failure (step : Step) (e : StepError) (elapsed budget : Nat) : RunM (String × Bool) := do
  let message ← describe cfg step e elapsed budget
  return (message, e.timedOut)

/-- One cutover-phase backend call. -/
def cutoverCall (c : Call) : RunM (Except (String × Bool) Unit) := do
  let budget := cfg.budgets.cutoverMs
  let out ← exec cfg .cutover budget (do let _ ← StepIo.callBackend c; return ())
  match out.res with
  | .ok () => return .ok ()
  | .error e => return .error (← failure cfg .cutover e out.elapsed budget)

/-- The verdict on the final check; the policy is asked only about a result that came in time. -/
def judgeFinal : Except StepError CheckEvidence → RunM (Except StepError (Option CheckEvidence))
  | .ok ev => do
    let accepts ← ask .acceptsSimulatedEvidence
    return judge (.ok ev) accepts
  | .error e => return .error e

/-- `.ok` carries the step note: what the final check observed. -/
def finalCheck : RunM (Except (String × Bool) String) := do
  let budget := cfg.budgets.finalMs
  let out ← exec cfg .finalCheck budget (StepIo.callBackend .finalCheck)
  match ← judgeFinal out.res with
  | .ok ev =>
    keepEvidence .finalCheck ev
    return .ok (noteOf ev)
  | .error e => return .error (← failure cfg .finalCheck e out.elapsed budget)

/-- A call failed, and only a warning says so. -/
def warnFailed (what : String) : Except StepError α → RunM Unit
  | .error e => do
    let m := (cfg.redactor.apply e.message).1
    warn [s!"{what}: {m}"]
  | .ok _ => pure ()

/-- Best-effort stop of a new release that started but failed. -/
def stopFailedNewRelease : RunM Unit := do
  let budget := cfg.budgets.cleanupMs
  let out ← exec cfg .cutover budget (do let _ ← StepIo.callBackend .stopNew; return ())
  warnFailed cfg "could not stop the failed new release" out.res

/-- How the one restoration attempt ended, from what the call returned and whether it came in
time. -/
def restoreOutcome (out : Outcome RestoreResult) : RecoveryOutcome :=
  match out.got, out.res with
  | some .healthy, .ok _ => .restored
  -- It came back, but not within the budget: the check cannot be trusted as in-time.
  | some .healthy, .error _ | some .startedUnverified, _ => .restoredUnverified
  | some (.failed why), _ => .restoreFailed why
  | some (.notAttempted why), _ => .notAttempted why
  | none, .error e => if e.timedOut then .restoreFailed .timeout else .restoreFailed .startFailed
  | none, .ok _ => .restoreFailed .startFailed

/-- An attempt that returned nothing failed; if it was not late, a warning says how. -/
def warnNotRestored (out : Outcome RestoreResult) : RunM Unit :=
  match out.got, out.res with
  | none, .error e => if e.timedOut then pure () else warnFailed cfg "restoration failed" out.res
  | _, _ => pure ()

/-- The one bounded restoration attempt. Never retried; reports exactly what happened. -/
def restorePhase (previous : Option PreviousRelease) (budgetMs : Nat) : RunM RecoveryOutcome := do
  match previous with
  | none => return .notAttempted .noPreviousRelease
  | some prev =>
    if prev.config.isNone then return .notAttempted .configUnavailable
    else
      -- Read-only: is something already running on the port? Then nothing is created.
      let checked ← exec cfg .recovery budgetMs (StepIo.callBackend (.restoreBlockers prev))
      warnFailed cfg "could not check what holds the previous release's port" checked.res
      let found := checked.got.getD []
      if !found.isEmpty then
        warn (found.map fun f => s!"restoration blocked: {f}")
        return .notAttempted .portInUse
      else
        let out ← exec cfg .recovery budgetMs (StepIo.callBackend (.restorePrevious prev budgetMs))
        warnNotRestored cfg out
        return restoreOutcome out

/-- Best effort: free the address for the restoration. -/
def freeAddress (newStarted : Bool) : RunM Unit :=
  if newStarted then stopFailedNewRelease cfg else pure ()

/-- A failure after the cutover began: persist it, then make the one bounded restoration attempt and
record the outcome. -/
def failAfterCutover (previous : Option PreviousRelease) (step : Step) (kind : FailureKind)
    (message : String) (timedOut newStarted : Bool) (budgetMs : Nat) : RunM Unit := do
  let at_ ← now
  change (·.finishStep step false message at_)
  setFailure step kind message timedOut
  change (·.failCutover at_)
  change (·.startStep .recovery at_)
  change (·.startRecovery budgetMs at_)
  save -- recovery is recorded as in progress before it starts
  freeAddress cfg newStarted
  let outcome ← restorePhase cfg previous budgetMs
  let at_ ← now
  change (·.finishRecovery outcome at_)
  change (·.finishStep .recovery outcome.serviceRestored outcome.asStr at_)
  change (·.transition .failed at_)
  save

/-! ## The run -/

/-- First deployment: nothing to stop, nothing to restore. -/
def firstDeployment : RunM Unit := do
  if ← planAndPin cfg then
    change (·.cutoverNotRequired)
    let at_ ← now
    change (·.startStep .cutover at_)
    save
    let started ← cutoverCall cfg .startNew
    let at_ ← now
    match started with
    | .error (message, timedOut) =>
      change (·.finishStep .cutover false message at_)
      endFailed .cutover .cutover message timedOut at_
    | .ok () =>
      change (·.finishStep .cutover true "" at_)
      change (·.startStep .finalCheck at_)
      repin
      save
      let checked ← finalCheck cfg
      let at_ ← now
      match checked with
      | .ok note =>
        change (·.finishStep .finalCheck true note at_)
        succeed
      | .error (message, timedOut) =>
        change (·.finishStep .finalCheck false message at_)
        setFailure .finalCheck .finalCheck message timedOut
        stopFailedNewRelease cfg
        let at_ ← now
        change (·.transition .failed at_)
        save

/-- The plan shown for a replacement; on a rollback, of the earlier release. -/
def planShown (d : Deployment) (previous : ReleaseId) : CutoverPlan :=
  let plan := CutoverPlan.new d.applicationId previous d.id cfg
  match d.rollbackTo with
  | some target => { plan with candidate := target, rollback := true }
  | none => plan

/-- Why the cutover is not begun, if it is not. -/
def whyNotCutOver (plan : CutoverPlan) : RunM (Option NotCutOver) := do
  if !(← ask .supportsCutover) then return some .unsupported
  else if !(← ask (.confirm plan)) then return some .notConfirmed
  else return none

/-- From the cutover on: stop the previous release, start the new one, check it. -/
def cutOver (prev : PreviousRelease) : RunM Unit := do
  let budget := cfg.policy.restoreBudgetMs
  -- The journal entry goes to disk before the healthy release is stopped, and it says which
  -- release that is.
  let at_ ← now
  modify fun r => { r with d := { r.d with replaces := some prev.release } }
  change (·.beginCutover at_)
  change (·.startStep .cutover at_)
  save
  match ← cutoverCall cfg (.stopCurrent prev) with
  | .error (m, timedOut) => failAfterCutover cfg (some prev) .cutover .cutover m timedOut false budget
  | .ok () =>
    match ← cutoverCall cfg .startNew with
    | .error (m, timedOut) => failAfterCutover cfg (some prev) .cutover .cutover m timedOut false budget
    | .ok () =>
      repin
      let at_ ← now
      change (·.finishStep .cutover true "" at_)
      change (·.startStep .finalCheck at_)
      save
      match ← finalCheck cfg with
      | .ok note =>
        let at_ ← now
        change (·.finishStep .finalCheck true note at_)
        change (·.confirmCutover at_)
        succeed
      | .error (m, timedOut) =>
        failAfterCutover cfg (some prev) .finalCheck .finalCheck m timedOut true budget

/-- Replace a running release. -/
def replacement (prev : PreviousRelease) : RunM Unit := do
  let plan := planShown cfg (← get).d prev.release
  match ← whyNotCutOver plan with
  | some why =>
    -- Nothing was stopped: the candidate stays prepared, the current release runs on.
    modify fun r => { r with prepared := some ⟨plan, why⟩ }
    endCancelled
  | none =>
    -- The new release's configuration is pinned before anything is stopped or created.
    if ← planAndPin cfg then cutOver cfg prev

def drive (previous : Option PreviousRelease) : RunM Unit := do
  let at_ ← now
  change (·.transition .running at_)
  save
  if ← preStep cfg .source .source (plainStep .prepareSource) then
    if ← preStep cfg .build .build (plainStep .build) then
      if ← preStep cfg .preliminaryCheck .preliminaryCheck preliminaryStep then
        -- Last cancellation point: after this the cutover is owned by the engine.
        if ← ask .cancel then endCancelled
        else
          match previous with
          | none => firstDeployment cfg
          | some prev => replacement cfg prev

/-- How the deployment ended, for its own cleanup. -/
def cleanupEnd (d : Deployment) : Option EndState :=
  (endState d.status).map fun ended =>
    if d.cutover.isFailed && ended = .notSucceeded then .failedCutover else ended

/-- After the terminal state is on disk: release what this deployment created. -/
def cleanup : RunM Unit := do
  let r ← get
  match cleanupEnd r.d with
  | none => pure ()
  | some ended =>
    if r.ledger.entries.any fun e => e.deployment = r.d.id then
      let reported ← onLedger (reconcile [(r.d.id, ended)])
      modify fun r => { r with unaccounted := r.unaccounted ++ reported }

def report (r : Run) (blocked : List String) (pause : Option PauseReason) : Report where
  deployment := r.d.id
  prepared := r.prepared
  blocked := blocked
  status := r.d.status
  pause := pause
  ledger := r.ledger
  evidence := r.evidence
  logs := r.logs
  warnings := r.warnings
  unaccounted := r.unaccounted

def finish : RunM Report := do
  cleanup
  let r ← get
  return report r [] (if r.d.cutover.isFailed then some .failedCutover else none)

/-- The state a run starts from. -/
def start (d : Deployment) : Run where
  d := d
  ledger := cfg.priorLedger
  evidence := []
  logs := []
  warnings := []
  unaccounted := []
  prepared := none

/-! ## Explicit recovery -/

/-- Problems that block an explicit recovery: read-only, so that the one attempt is not spent on a
conflict the developer can clear. -/
def recoveryBlockers (prev : PreviousRelease) (budget : Nat) : RunM (List String) := do
  if prev.config.isNone then return []
  else
    let checked ← exec cfg .recovery budget (StepIo.callBackend (.restoreBlockers prev))
    let found := checked.got.getD []
    match checked.res with
    | .error e =>
      return found ++ [s!"could not check what holds the previous release's port: {e.message}"]
    | .ok _ => return found

def notReplaced : String :=
  "explicit recovery (the deployment does not record replacing that release)"

/-- The explicit, bounded restoration of an interrupted cutover. -/
def recover (prev : PreviousRelease) : RunM Report := do
  let budget := cfg.policy.restoreBudgetMs
  let r ← get
  -- Eligibility first, before anything is read from the runtime.
  if !r.d.canRecoverExplicitly then
    throw (.transition (.cutover r.d.cutover Deployment.explicitRecovery))
  -- The deployment must say what it replaced, and the caller must mean that release.
  else if r.d.replaces ≠ some prev.release then
    throw (.transition (.cutover r.d.cutover notReplaced))
  else
    let found ← recoveryBlockers cfg prev budget
    if !found.isEmpty then return report (← get) found (some .failedCutover)
    else
      let at_ ← now
      change (·.beginExplicitRecovery budget at_)
      save -- the attempt is on disk before anything is touched
      let outcome ← restorePhase cfg (some prev) budget
      let at_ ← now
      change (·.finishRecovery outcome at_)
      change (·.finishStep .recovery outcome.serviceRestored outcome.asStr at_)
      save
      return report (← get) [] (some .failedCutover)

end

end Run

/-- The release a run replaces, as the engine knows it. -/
def previousOf (ctx : Context) (cfg : RunConfig) : Option PreviousRelease :=
  ctx.previousRelease.map fun r =>
    { release := r, deployment := r.deployment, config := cfg.previous,
      container := cfg.previousContainer }

/-- Drive one deployment from queued to a terminal state. The deployment is changed in place: the
second component is what the run leaves of it. -/
def runDeploymentConfirmed (d : Deployment) (ctx : Context) (cfg : RunConfig) :
    Program EngineSig (Except EngineError Report × Run) :=
  (do Run.drive cfg (previousOf ctx cfg); Run.finish : RunM Report).toProgram (Run.start cfg d)

/-- Restore the previous release of a cutover that was interrupted part-way. -/
def recoverCutover (d : Deployment) (previous : PreviousRelease) (cfg : RunConfig) :
    Program EngineSig (Except EngineError Report × Run) :=
  (Run.recover cfg { previous with config := cfg.previous }).toProgram (Run.start cfg d)

end Harpoon.Deploy
