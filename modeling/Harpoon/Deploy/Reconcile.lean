import Harpoon.Deploy.Surroundings

/-!
# Cleanup

Carrying out a plan, and the reconciliation of the ledger with the runtime (`engine.rs`). Every
removal is bracketed by an attempt and a result record; every record is validated against a copy of
the ledger and made durable before the ledger in memory takes it.
-/

namespace Harpoon.Deploy

open Interact

/-- Validate against a copy, make the write durable, and only then adopt the new ledger. -/
def writeRecord (r : LedgerRecord) : Engine Ledger EngineError Unit := do
  let ledger ← get
  match ledger.apply r with
  | (.error e, _) => throw (.ledger e)
  | (.ok (), next) =>
    match ← ask (.record r) with
    | .acknowledged => set next
    | .failed e _ => throw (.journal e)

def requestFor (entry : Entry) (id : String) : RemoveRequest where
  kind := entry.key.kind
  id := id
  name := entry.key.name
  app := entry.app
  deployment := entry.deployment

def attempt (entry : EntryRef) : Engine Ledger EngineError Unit := do
  let atMs ← now
  writeRecord (.cleanupAttempt entry.2 entry.1 atMs)

def settle (entry : EntryRef) (outcome : CleanupOutcome) : Engine Ledger EngineError Unit := do
  let atMs ← now
  writeRecord (.cleanupResult entry.2 entry.1 outcome atMs)

/-- Record the id the runtime reports for an object that was never receipted. -/
def adoptEntry (entry : EntryRef) (observed : Observed) : Engine Ledger EngineError Unit := do
  let atMs ← now
  writeRecord (.receipt entry.2 entry.1 observed.id atMs)

/-- The outcome recorded for what the runtime answered about `e`. A conflict is typed only where the
ledger accepts it; anywhere else it is an ordinary failed cleanup. -/
def outcomeOf (e : Entry) : Except StepError RemoveResult → CleanupOutcome
  | .ok .removed => .removed
  | .ok .alreadyAbsent => .alreadyAbsent
  | .ok (.refused why) => .refused why
  | .ok (.conflict cause why) =>
    if e.key.kind = .image && e.disposition = .retain && e.id.isSome then .conflict cause why
    else .failed s!"conflict ({cause.asStr}): {why}"
  | .error err => .failed err.message

/-- Ask the runtime to remove the object, between an attempt and its result. -/
def removeObserved (entry : EntryRef) (observed : Observed) : Engine Ledger EngineError Unit := do
  attempt entry
  match (← get).find entry.1 entry.2 with
  | some e =>
    let answer ← ask (.removeResource (requestFor e observed.id))
    settle entry (outcomeOf e answer)
  -- The source's `expect`: the attempt above found the entry.
  | none => throw (.ledger (.unknownEntry entry.2))

/-- Carry out one action. Returns the object if it was only reported. -/
def executeAction : Action → Engine Ledger EngineError (List Observed)
  | .reportOnly observed _ => return [observed]
  | .adopt entry observed => do
    adoptEntry entry observed
    return []
  | .releaseLease entry => do
    attempt entry
    settle entry .removed
    return []
  | .markAbsent entry => do
    attempt entry
    settle entry .alreadyAbsent
    return []
  | .refuse entry reason => do
    attempt entry
    settle entry (.refused reason)
    return []
  | .remove entry observed adopt => do
    if adopt then adoptEntry entry observed
    removeObserved entry observed
    return []

/-- Carry out a plan. Returns the objects that were only reported, never touched. -/
def executeActions : List Action → Engine Ledger EngineError (List Observed)
  | [] => return []
  | a :: actions => do
    let reported ← executeAction a
    return reported ++ (← executeActions actions)

/-- Are the deployment's containers all released? A container that a restoration recreated serves on
the previous release's lease, so it does not count. -/
def containersSettled (ledger : Ledger) (d : DeploymentId) : Bool :=
  (ledger.entries.filter fun e =>
    e.deployment = d && e.key.kind = .container && e.key.name ≠ restoredContainerName d).all
      Entry.isReleased

/-- Release a lease, if its deployment's containers are settled. -/
def releaseIfSettled (lease : Action) : Engine Ledger EngineError (List Observed) := do
  let ledger ← get
  if lease.target?.any fun entry => containersSettled ledger entry.1 then executeActions [lease]
  else return []

def releaseLeases : List Action → Engine Ledger EngineError (List Observed)
  | [] => return []
  | lease :: leases => do
    let reported ← releaseIfSettled lease
    return reported ++ (← releaseLeases leases)

def couldNotList (why : String) : CleanupOutcome := .failed s!"could not list the runtime: {why}"

/-- The runtime could not be listed: what would have been cleaned has a failed cleanup. -/
def failActions (why : String) : List Action → Engine Ledger EngineError Unit
  | [] => return ()
  | .releaseLease entry :: actions => do
    attempt entry
    settle entry .removed
    failActions why actions
  | .markAbsent entry :: actions => do
    attempt entry
    settle entry (couldNotList why)
    failActions why actions
  | _ :: actions => failActions why actions

/-- Plan and execute, given what the runtime listed. -/
def reconcileListed (ended : List (DeploymentId × EndState)) :
    Except StepError (List Observed) → Engine Ledger EngineError (List Observed)
  | .ok observed => do
    let ledger ← get
    let (leases, objects) := (plan ledger observed ended).partition Action.isReleaseLease
    let reported ← executeActions objects
    return reported ++ (← releaseLeases leases)
  | .error e => do
    -- Plan against an empty runtime to learn which entries need cleanup, then fail them.
    let ledger ← get
    failActions e.message (plan ledger [] ended)
    return []

/-- List the runtime, plan, execute. If the runtime cannot be listed, every object that would have
needed removal is recorded as a failed cleanup. -/
def reconcile (ended : List (DeploymentId × EndState)) : Engine Ledger EngineError (List Observed) := do
  let listed ← ask .listResources
  reconcileListed ended listed

/-- `some` for a deployment that has finished (or was interrupted); `none` while it may still run. -/
def endState : DeploymentStatus → Option EndState
  | .succeeded => some .succeeded
  | s => if s.isTerminal then some .notSucceeded else none

end Harpoon.Deploy
