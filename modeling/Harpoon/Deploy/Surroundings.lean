import Harpoon.Deploy.Backend
import Harpoon.Deploy.Logs
import Harpoon.Interact.Process

/-!
# The engine's surroundings

Everything the engine reads and everything it asks (`engine.rs`): its configuration, the plan it shows
before a cutover, its errors, and the signature of the operations through which it reaches the clock,
the journal, the backend and its caller.

A backend call is two operations. `call` begins it, and is answered by what the backend does with its
`StepIo`; `result` ends it, and is answered by what it returns. Between the two the process can die at
any write. A write may also fail and be stored all the same: the error only says that nobody knows.
-/

namespace Harpoon.Deploy

open Interact

/-! ## Configuration -/

structure Policy where
  /-- Time budget for the single restoration attempt. -/
  restoreBudgetMs : Nat
  deriving DecidableEq, Repr

def Policy.default : Policy := ⟨60000⟩

/-- Time budgets of the steps, in milliseconds. -/
structure Budgets where
  sourceMs : Nat
  buildMs : Nat
  preliminaryMs : Nat
  cutoverMs : Nat
  finalMs : Nat
  /-- The whole resource-cleanup phase of one deployment. -/
  cleanupMs : Nat
  deriving DecidableEq, Repr

def Budgets.default : Budgets where
  sourceMs := 120000
  buildMs := 600000
  preliminaryMs := 60000
  cutoverMs := 60000
  finalMs := 60000
  cleanupMs := 60000

def Budgets.forStep (b : Budgets) : Step → Nat
  | .source => b.sourceMs
  | .build => b.buildMs
  | .preliminaryCheck => b.preliminaryMs
  | .cutover => b.cutoverMs
  | .finalCheck => b.finalMs
  | .recovery => b.cleanupMs

structure RunConfig where
  policy : Policy
  budgets : Budgets
  logLimits : LogLimits
  redactor : Redactor
  /-- The ledger as restored from the durable journal. -/
  priorLedger : Ledger
  /-- The pinned configuration of the release being replaced. -/
  previous : Option ReleaseConfig
  /-- Where the release being replaced serves from, when that is not its own container. -/
  previousContainer : Option ContainerRef
  deriving DecidableEq, Repr

def RunConfig.default : RunConfig where
  policy := .default
  budgets := .default
  logLimits := .default
  redactor := .none
  priorLedger := .new
  previous := none
  previousContainer := none

/-- What the caller supplies about the application's current state. -/
structure Context where
  /-- The release currently serving, if any. -/
  previousRelease : Option ReleaseId
  deriving DecidableEq, Repr

/-! ## The plan shown before a cutover -/

/-- The largest value of the source's 64-bit times. -/
def maxMs : Nat := UInt64.size - 1

/-- What a cutover would do and how long it may hold the application down. -/
structure CutoverPlan where
  application : ApplicationId
  previous : ReleaseId
  candidate : ReleaseId
  /-- Two cutover budgets and the final check, saturating. -/
  maxInterruptionMs : Nat
  restoreBudgetMs : Nat
  /-- Whether the release being replaced has a pinned configuration. -/
  restorable : Bool
  rollback : Bool
  deriving DecidableEq, Repr

def CutoverPlan.new (application : ApplicationId) (previous : ReleaseId) (candidate : DeploymentId)
    (cfg : RunConfig) : CutoverPlan where
  application := application
  previous := previous
  candidate := .fromDeployment candidate
  maxInterruptionMs := min (min (cfg.budgets.cutoverMs * 2) maxMs + cfg.budgets.finalMs) maxMs
  restoreBudgetMs := cfg.policy.restoreBudgetMs
  restorable := cfg.previous.isSome
  rollback := false

/-- Why a prepared candidate was not cut over. -/
inductive NotCutOver where
  | notConfirmed
  | unsupported
  deriving DecidableEq, Repr

structure Prepared where
  plan : CutoverPlan
  why : NotCutOver
  deriving DecidableEq, Repr

/-! ## Outcomes -/

/-- Why automatic triggers should pause. -/
inductive PauseReason where
  | failedCutover
  deriving DecidableEq, Repr

structure Report where
  deployment : DeploymentId
  /-- Set when the candidate was built and checked but the cutover was not begun. -/
  prepared : Option Prepared
  /-- Why an explicit recovery was not started. -/
  blocked : List String
  status : DeploymentStatus
  pause : Option PauseReason
  /-- The ledger as it ended. -/
  ledger : Ledger
  /-- What each check actually observed, in step order. -/
  evidence : List (Step × CheckEvidence)
  logs : List (Step × LogCapture)
  /-- Things that went wrong without changing the status. -/
  warnings : List String
  /-- Objects labelled as this deployment's but unknown to the ledger. -/
  unaccounted : List Observed
  deriving DecidableEq, Repr

inductive EngineError where
  /-- A write to the journal failed. -/
  | journal (e : JournalError)
  /-- An invalid transition was requested. -/
  | transition (e : TransitionError)
  /-- An invalid ledger record was attempted. -/
  | ledger (e : LedgerError)
  deriving DecidableEq, Repr

/-! ## Operations -/

inductive EngineOp where
  /-- Read the clock. -/
  | nowMs
  /-- Has the caller asked to cancel? -/
  | cancel
  /-- Does the caller accept the plan? -/
  | confirm (plan : CutoverPlan)
  /-- Store a deployment snapshot. -/
  | persist (d : Deployment)
  /-- Store a ledger record. -/
  | record (r : LedgerRecord)
  | call (c : Call) (budgetMs : Nat)
  | result (c : Call)
  | listResources
  | removeResource (req : RemoveRequest)
  | acceptsSimulatedEvidence
  | supportsCutover
  | pinnedConfig
  deriving DecidableEq

/-- What became of a write. -/
inductive Written where
  | acknowledged
  /-- It was reported as failed; whether it is stored nobody knows, so either may be so. -/
  | failed (e : JournalError) (stored : Bool)
  deriving DecidableEq, Repr

def Written.isAcknowledged : Written → Bool
  | .acknowledged => true
  | .failed _ _ => false

def Written.isStored : Written → Bool
  | .acknowledged => true
  | .failed _ stored => stored

abbrev EngineOp.Answer : EngineOp → Type
  | .nowMs => Nat
  | .cancel | .confirm _ | .acceptsSimulatedEvidence | .supportsCutover => Bool
  | .persist _ | .record _ => Written
  | .call _ _ => Script
  | .result c => Except StepError c.Ret
  | .listResources => Except StepError (List Observed)
  | .removeResource _ => Except StepError RemoveResult
  | .pinnedConfig => Option ReleaseConfig

abbrev EngineSig : Signature := ⟨EngineOp, EngineOp.Answer⟩

/-- Code of the engine with a state `ρ` and errors `ε`. -/
abbrev Engine (ρ ε α : Type) := Process EngineSig ρ ε α

/-- Ask an operation of the engine. -/
def ask {ρ ε : Type} (op : EngineOp) : Engine ρ ε op.Answer := Process.perform (S := EngineSig) op

variable {ρ ε : Type}

def now : Engine ρ ε Nat := ask .nowMs

/-! ## `StepIo` -/

/-- What a backend step may use: its deadline, a bounded redacting log, and the ledger protocol. -/
structure StepIo where
  budgetMs : Nat
  log : LogSink
  ledger : Ledger
  app : ApplicationId
  dep : DeploymentId

namespace StepIo

/-- Validate against a copy, make the write durable, and only then adopt the new ledger. -/
def write (r : LedgerRecord) : Engine StepIo StepError Unit := do
  let io ← get
  match io.ledger.apply r with
  | (.error e, _) => throw (.new e.display)
  | (.ok (), next) =>
    match ← ask (.record r) with
    | .acknowledged => modify fun io => { io with ledger := next }
    | .failed e _ => throw (.ofJournal e)

def intend (key : ResourceKey) (disposition : Disposition) : Engine StepIo StepError Intent := do
  let atMs ← now
  let io ← get
  write (.intent key io.app io.dep disposition atMs)
  return ⟨key⟩

def receipt (intent : Intent) (id : String) : Engine StepIo StepError Unit := do
  let atMs ← now
  let io ← get
  write (.receipt intent.key io.dep id atMs)

def cleanupAttempt (key : ResourceKey) : Engine StepIo StepError Unit := do
  let atMs ← now
  let io ← get
  write (.cleanupAttempt key io.dep atMs)

def cleanupResult (key : ResourceKey) (outcome : CleanupOutcome) : Engine StepIo StepError Unit := do
  let atMs ← now
  let io ← get
  write (.cleanupResult key io.dep outcome atMs)

def leaseKey (hostPort : UInt16) : ResourceKey := ⟨.portLease, toString hostPort⟩

def releaseLease (hostPort : UInt16) : Engine StepIo StepError Unit := do
  cleanupAttempt (leaseKey hostPort)
  cleanupResult (leaseKey hostPort) .removed

def leasePort (hostPort : UInt16) : Engine StepIo StepError Intent := do
  let intent ← intend (leaseKey hostPort) .removeOnFailure
  receipt intent (toString hostPort)
  return intent

/-- One use of a `StepIo`. -/
def answer : (op : IoOp) → Engine StepIo ε op.Answer
  | .intend key disposition => Process.attempt (intend key disposition)
  | .receipt intent id => Process.attempt (receipt intent id)
  | .cleanupAttempt key => Process.attempt (cleanupAttempt key)
  | .cleanupResult key outcome => Process.attempt (cleanupResult key outcome)
  | .leasePort hostPort => Process.attempt (leasePort hostPort)
  | .releaseLease hostPort => Process.attempt (releaseLease hostPort)
  | .nowMs => now
  | .budgetMs => do return (← get).budgetMs
  | .app => do return (← get).app
  | .deployment => do return (← get).dep
  | .ledger => do return (← get).ledger
  | .pushChunk text => modify fun io => { io with log := io.log.pushChunk text }
  | .pushLine text => modify fun io => { io with log := io.log.pushLine text }
  | .pushText text => modify fun io => { io with log := io.log.pushText text }
  | .redact text => do return (← get).log.redact text

/-- Everything a backend does with its `StepIo` during one call. -/
def runScript : Script → Engine StepIo ε Unit
  | .done () => pure ()
  | .ask op next => do
    let a ← answer op
    runScript (next a)

/-- Call the backend. -/
def callBackend (c : Call) : Engine StepIo StepError c.Ret := do
  let io ← get
  let script ← ask (.call c io.budgetMs)
  runScript script
  let res ← ask (.result c)
  Process.ofExcept id res

end StepIo

end Harpoon.Deploy
