import Harpoon.Deploy.State
import Harpoon.Journal.Ledger
import Harpoon.Journal.Release

/-!
# Deployment snapshots as lines

A snapshot has a fixed number of fields, and up to three more at the end that are written only when they
are set: the pinned configuration, the replaced release and the rollback target (`journal_format.rs`).
-/

namespace Harpoon.Journal

open Deploy Wire

/-! ## Tokens -/

def triggerStr : Trigger → String
  | .manual => "manual"
  | .cli => "cli"
  | .poll => "poll"
  | .webhook => "webhook"
  | .rollback => "rollback"
  | .promote => "promote"

def statusStr : DeploymentStatus → String
  | .requested => "requested"
  | .queued => "queued"
  | .running => "running"
  | .succeeded => "succeeded"
  | .failed => "failed"
  | .cancelled => "cancelled"
  | .interrupted => "interrupted"
  | .superseded => "superseded"

def stepStr : Step → String
  | .source => "source"
  | .build => "build"
  | .preliminaryCheck => "preliminary_check"
  | .cutover => "cutover"
  | .finalCheck => "final_check"
  | .recovery => "recovery"

def stepStatusStr : StepStatus → String
  | .pending => "pending"
  | .running => "running"
  | .succeeded => "succeeded"
  | .failed => "failed"
  | .skipped => "skipped"
  | .interrupted => "interrupted"

def failureKindStr : FailureKind → String
  | .source => "source"
  | .build => "build"
  | .preliminaryCheck => "preliminary_check"
  | .cutover => "cutover"
  | .finalCheck => "final_check"

def reasonStr : Reason → String
  | .noPreviousRelease => "no_previous_release"
  | .configUnavailable => "config_unavailable"
  | .portInUse => "port_in_use"
  | .interrupted => "interrupted"
  | .imageMissing => "image_missing"
  | .secretUnavailable => "secret_unavailable"
  | .dockerUnreachable => "docker_unreachable"
  | .timeout => "timeout"
  | .startFailed => "start_failed"
  | .cancelled => "cancelled"

def outcomeFields : RecoveryOutcome → String × String
  | .inProgress => ("in_progress", "-")
  | .restored => ("restored", "-")
  | .restoredUnverified => ("restored_unverified", "-")
  | .restoreFailed r => ("restore_failed", reasonStr r)
  | .notAttempted r => ("not_attempted", reasonStr r)

/-! ## Writing -/

def optStr (v : Option Nat) : String := (v.map Nat.repr).getD "-"

def flagStr (b : Bool) : String := if b then "1" else "0"

def cutoverFields : CutoverState → List String
  | .notStarted => ["not_started", "-"]
  | .notRequired => ["not_required", "-"]
  | .begun atMs => ["begun", atMs.repr]
  | .confirmed atMs => ["confirmed", atMs.repr]
  | .failed atMs => ["failed", atMs.repr]

def failureFields : Option Failure → List String
  | none => ["0", "-", "-", "-", "0"]
  | some x => ["1", stepStr x.step, failureKindStr x.kind, esc x.message, flagStr x.timedOut]

def recoveryFields : Option Recovery → List String
  | none => ["0", "-", "-", "-", "-", "-"]
  | some r => ["1", (outcomeFields r.outcome).1, (outcomeFields r.outcome).2, r.startedMs.repr,
      optStr r.finishedMs, r.budgetMs.repr]

def interruptionFields : Option Interruption → List String
  | none => ["0", "-", "-"]
  | some i => ["1", i.startedMs.repr, optStr i.endedMs]

def stepFields (r : StepRecord) : List String :=
  [stepStatusStr r.status, optStr r.startedMs, optStr r.finishedMs, esc r.note]

def idStr {kind : IdKind} (o : Option (Id kind)) : String := (o.map Id.asStr).getD "-"

/-- The fields that every snapshot has, after its kind and version. -/
def fixedFields (d : Deployment) : List String :=
  [d.id.asStr, d.applicationId.asStr, triggerStr d.trigger, statusStr d.status, d.createdMs.repr,
    optStr d.startedMs, optStr d.finishedMs] ++
  (cutoverFields d.cutover ++ (failureFields d.failure ++ (recoveryFields d.recovery ++
    (interruptionFields d.interruption ++ ([idStr d.release] ++ Step.order.flatMap fun s => stepFields (d.step s))))))

/-- The fields that are written only when they, or later ones, are set. -/
def trailingFields (d : Deployment) : List String :=
  (if d.pinned.isSome ∨ d.replaces.isSome ∨ d.rollbackTo.isSome then
    [(d.pinned.map ReleaseConfig.encode).getD "-"] else []) ++
  ((if d.replaces.isSome ∨ d.rollbackTo.isSome then [idStr d.replaces] else []) ++
    (d.rollbackTo.map Id.asStr).toList)

def snapshotFields (d : Deployment) : List String := "snap" :: "1" :: (fixedFields d ++ trailingFields d)

def encodeSnapshot (d : Deployment) : String := frame (joined '\t' (snapshotFields d))

/-! ## Reading -/

/-- Code that takes one field after the other. -/
abbrev Reader (α : Type) := StateT (List String) (Except String) α

def next (what : String) : Reader String := do
  match ← get with
  | [] => throw s!"snapshot ends before {what}"
  | s :: rest =>
    set rest
    return s

def num (what : String) : Reader Nat := do
  number s!"{what} is not a number" (← next what)

def readOpt (what s : String) : Except String (Option Nat) :=
  if s = "-" then .ok none else some <$> number s!"{what} is not a number" s

def opt (what : String) : Reader (Option Nat) := do
  readOpt what (← next what)

def readFlag (what s : String) : Except String Bool :=
  match s with
  | "1" => .ok true
  | "0" => .ok false
  | _ => .error s!"{what} is not 0 or 1"

def flag (what : String) : Reader Bool := do
  readFlag what (← next what)

def text (what : String) : Reader String := do
  need s!"{what} has a bad escape" (unesc (← next what))

/-- The value among `all` that is written as `s`. -/
def named {α : Type} (what : String) (str : α → String) (all : List α) (s : String) : Except String α :=
  need s!"unknown {what} {Envvars.debugStr s}" (all.find? fun a => str a = s)

def parseTrigger : String → Except String Trigger :=
  named "trigger" triggerStr [.manual, .cli, .poll, .webhook, .rollback, .promote]

def parseStatus : String → Except String DeploymentStatus :=
  named "status" statusStr
    [.requested, .queued, .running, .succeeded, .failed, .cancelled, .interrupted, .superseded]

def parseStep : String → Except String Step := named "step" stepStr Step.order

def parseStepStatus : String → Except String StepStatus :=
  named "step status" stepStatusStr [.pending, .running, .succeeded, .failed, .skipped, .interrupted]

def parseFailureKind : String → Except String FailureKind :=
  named "failure kind" failureKindStr [.source, .build, .preliminaryCheck, .cutover, .finalCheck]

def parseReason : String → Except String Reason :=
  named "reason" reasonStr [.noPreviousRelease, .configUnavailable, .portInUse, .interrupted, .imageMissing,
    .secretUnavailable, .dockerUnreachable, .timeout, .startFailed, .cancelled]

def parseRecoveryOutcome (o why : String) : Except String RecoveryOutcome :=
  match o with
  | "in_progress" => .ok .inProgress
  | "restored" => .ok .restored
  | "restored_unverified" => .ok .restoredUnverified
  | "restore_failed" => .restoreFailed <$> parseReason why
  | "not_attempted" => .notAttempted <$> parseReason why
  | _ => .error s!"unknown recovery outcome {Envvars.debugStr o}"

def cutoverOf (kind : String) (atMs : Option Nat) : Except String CutoverState :=
  match kind, atMs with
  | "not_started", none => .ok .notStarted
  | "not_required", none => .ok .notRequired
  | "begun", some atMs => .ok (.begun atMs)
  | "confirmed", some atMs => .ok (.confirmed atMs)
  | "failed", some atMs => .ok (.failed atMs)
  | _, _ => .error "inconsistent cutover fields"

def readCutover : Reader CutoverState := do
  let kind ← next "cutover"
  let atMs ← opt "cutover time"
  cutoverOf kind atMs

def failureOf (has : Bool) (step kind message : String) (timedOut : Bool) : Except String (Option Failure) :=
  if has then do
    let step ← parseStep step
    let kind ← parseFailureKind kind
    let message ← need "failure message has a bad escape" (unesc message)
    return some ⟨step, kind, message, timedOut⟩
  else if (step, kind, message, timedOut) ≠ ("-", "-", "-", false) then
    .error "failure fields set without a failure"
  else .ok none

def readFailure : Reader (Option Failure) := do
  let has ← flag "failure flag"
  let step ← next "failure step"
  let kind ← next "failure kind"
  let message ← next "failure message"
  let timedOut ← flag "failure timed-out flag"
  failureOf has step kind message timedOut

def recoveryOf (has : Bool) (outcome why started : String) (finished : Option Nat) (budget : String) :
    Except String (Option Recovery) :=
  if has then do
    let outcome ← parseRecoveryOutcome outcome why
    let started ← number "recovery start is not a number" started
    let budget ← number "recovery budget is not a number" budget
    return some ⟨outcome, started, finished, budget⟩
  else if (outcome, why, started, finished, budget) ≠ ("-", "-", "-", none, "-") then
    .error "recovery fields set without a recovery"
  else .ok none

def readRecovery : Reader (Option Recovery) := do
  let has ← flag "recovery flag"
  let outcome ← next "recovery outcome"
  let why ← next "recovery reason"
  let started ← next "recovery start"
  let finished ← opt "recovery end"
  let budget ← next "recovery budget"
  recoveryOf has outcome why started finished budget

def interruptionOf (has : Bool) (started : String) (ended : Option Nat) : Except String (Option Interruption) :=
  if has then do
    let started ← number "interruption start is not a number" started
    return some ⟨started, ended⟩
  else if (started, ended) ≠ ("-", none) then .error "interruption fields set without an interruption"
  else .ok none

def readInterruption : Reader (Option Interruption) := do
  let has ← flag "interruption flag"
  let started ← next "interruption start"
  let ended ← opt "interruption end"
  interruptionOf has started ended

def releaseOf (id : DeploymentId) (s : String) : Except String (Option ReleaseId) :=
  if s = "-" then .ok none
  else do
    let rel ← readId .release "bad release id" s
    if rel ≠ ReleaseId.fromDeployment id then .error "release id does not belong to this deployment" else .ok (some rel)

def readStep : Reader StepRecord := do
  let status ← parseStepStatus (← next "step status")
  let started ← opt "step start"
  let finished ← opt "step end"
  let note ← text "step note"
  return ⟨status, started, finished, note⟩

def readSteps : List Step → StepTable → Reader StepTable
  | [], t => return t
  | s :: ss, t => do
    let r ← readStep
    readSteps ss (t.set s r)

/-- The number of fields in a version-1 snapshot body. -/
def snapshotLen : Nat := 2 + 7 + 2 + 5 + 6 + 3 + 1 + 6 * 4

def checkVersion (f : List String) : Except String Unit :=
  match f[1]?.bind (parseUnsigned 10 0xFFFFFFFF) with
  | some 1 => .ok ()
  | some v => .error s!"snapshot version {v} is not supported (this build reads 1)"
  | none => .error "snapshot has no version"

def checkLen (f : List String) : Except String Unit :=
  if f.length < snapshotLen ∨ f.length > snapshotLen + 3 then
    .error s!"snapshot has {f.length} fields, expected {snapshotLen} (plus up to three optional trailing fields: the pinned configuration, the replaced release, the rollback target)"
  else .ok ()

def readPinned (f : List String) : Except String (Option ReleaseConfig) :=
  match f[snapshotLen]? with
  | none | some "-" => .ok none
  | some p => some <$> (ReleaseConfig.decode p).mapError fun e =>
      s!"snapshot has {f.length} fields, expected {snapshotLen} (a last extra field must be a valid pinned configuration: {e})"

def readReplaces (f : List String) : Except String (Option ReleaseId) :=
  match f[snapshotLen + 1]? with
  | none | some "-" => .ok none
  | some r => some <$> readId .release "bad replaced release id" r

def readRollbackTo (f : List String) : Except String (Option ReleaseId) :=
  match f[snapshotLen + 2]? with
  | none => .ok none
  | some r => some <$> readId .release "bad rollback target release id" r

/-- The deployment that the fixed fields spell, without the trailing ones. -/
def readFixed : Reader Deployment := do
  let id ← readId .deployment "bad deployment id" (← next "id")
  let applicationId ← readId .application "bad application id" (← next "application id")
  let trigger ← parseTrigger (← next "trigger")
  let status ← parseStatus (← next "status")
  let createdMs ← num "created"
  let startedMs ← opt "started"
  let finishedMs ← opt "finished"
  let cutover ← readCutover
  let failure ← readFailure
  let recovery ← readRecovery
  let interruption ← readInterruption
  let release ← releaseOf id (← next "release")
  let steps ← readSteps Step.order .fresh
  return {
    id, applicationId, trigger, status, createdMs, startedMs, finishedMs, steps, cutover, failure, recovery,
    interruption, release
    pinned := none
    replaces := none
    rollbackTo := none }

def decodeSnapshot (f : List String) : Except String Deployment := do
  checkVersion f
  checkLen f
  let pinned ← readPinned f
  let replaces ← readReplaces f
  let rollbackTo ← readRollbackTo f
  let (d, _) ← readFixed.run ((f.drop 2).take (snapshotLen - 2))
  return { d with pinned := pinned, replaces := replaces, rollbackTo := rollbackTo }

end Harpoon.Journal
