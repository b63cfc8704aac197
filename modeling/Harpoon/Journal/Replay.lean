import Harpoon.Journal.Format

/-!
# What the records of a journal amount to

The latest snapshot of each deployment, the resource ledger, and the pauses and events, rebuilt record by
record. A record that contradicts what came before makes the journal unreadable, and so does a state that
contradicts itself at the end (`journal_format.rs`).

What the records of configurations, of repositories and of step logs amount to is a parameter, `Keeping`.
-/

namespace Harpoon.Journal

open Deploy

/-- How the records that are not looked into are read and kept. -/
structure Keeping (β σ : Type) where
  decode : List String → Except String β
  empty : σ
  apply : σ → β → Except String σ
  /-- A step log is of a deployment that is recorded. -/
  checkLogs : σ → List Deployment → Except String Unit
  /-- Every pinned configuration and every pinned secret was saved. -/
  checkPins : σ → List Deployment → Except String Unit

/-- The state a journal describes. -/
structure State (σ : Type) where
  /-- The latest snapshot of each deployment, in order of first appearance. -/
  deployments : List Deployment
  ledger : Ledger
  control : Control.ControlState
  kept : σ

/-- What stays the same when a recovery is attached to a deployment. -/
def sameIdentity (old new : Deployment) : Bool :=
  old.id = new.id && old.applicationId = new.applicationId && old.trigger = new.trigger &&
    old.createdMs = new.createdMs && old.startedMs = new.startedMs && old.finishedMs = new.finishedMs &&
    old.failure = new.failure && old.release = new.release && old.pinned = new.pinned &&
    old.replaces = new.replaces && old.rollbackTo = new.rollbackTo

/-- The attempt goes on: none, then in progress, then its outcome. -/
def recoveryMoves (old new : Deployment) : Bool :=
  match old.recovery, new.recovery with
  | none, some _ => old.cutover.isBegun && new.cutover.isFailed
  | some o, some n =>
    o.outcome = .inProgress && o.startedMs = n.startedMs && o.budgetMs = n.budgetMs && old.cutover = new.cutover
  | _, none => false

/-- The one change a terminal deployment may still receive: an interrupted one whose cutover began and
never finished gets its single restoration attached. -/
def recoveryAttached (old new : Deployment) : Bool :=
  old.status = .interrupted && new.status = .interrupted && sameIdentity old new && recoveryMoves old new

def changedAfterEnd (d old : Deployment) : FormatError :=
  .inconsistent s!"deployment {d.id} changed after reaching {statusStr old.status}"

/-- The snapshots, with `d` the latest of its deployment. -/
def put (d : Deployment) : List Deployment → Except FormatError (List Deployment)
  | [] => .ok [d]
  | old :: rest =>
    if old.id = d.id then
      if old.status.isTerminal ∧ d ≠ old ∧ recoveryAttached old d = false then .error (changedAfterEnd d old)
      else .ok (d :: rest)
    else do
      let rest ← put d rest
      return old :: rest

section

variable {β σ : Type} (keep : Keeping β σ)

namespace State

def start : State σ := ⟨[], .new, .new, keep.empty⟩

/-- Apply a record. `i` ledger records came before. -/
def apply (s : State σ) (i : Nat) : Line β → Except FormatError (State σ)
  | .header _ => .ok s
  | .snapshot d => do
    let deployments ← put d s.deployments
    return { s with deployments }
  | .ledger r =>
    match s.ledger.apply r with
    | (.ok (), ledger) => .ok { s with ledger }
    | (.error e, _) => .error (.inconsistent s!"ledger record {i + 1} does not apply: {e.display}")
  | .control r =>
    match s.control.apply r with
    | .ok control => .ok { s with control }
    | .error e => .error (.inconsistent s!"control record does not apply: {e}")
  | .other r =>
    match keep.apply s.kept r with
    | .ok kept => .ok { s with kept }
    | .error e => .error (.inconsistent e)

/-- How many ledger records there are after one more record. -/
def count (i : Nat) : Line β → Nat
  | .ledger _ => i + 1
  | .header _ | .snapshot _ | .control _ | .other _ => i

/-- Apply the records in order. -/
def applyAll (s : State σ) (i : Nat) : List (Line β) → Except FormatError (State σ)
  | [] => .ok s
  | l :: ls => do
    let s ← s.apply keep i l
    s.applyAll (count i l) ls

/-- What is checked once all records are applied. -/
def check (s : State σ) : Except FormatError Unit := do
  (keep.checkLogs s.kept s.deployments).mapError .inconsistent
  (keep.checkPins s.kept s.deployments).mapError fun e => .inconsistent s!"configuration state: {e}"
  (s.control.checkAgainst s.deployments).mapError fun e => .inconsistent s!"control state: {e}"

end State

/-- Rebuild the state from the records. A deployment that reached a terminal status does not change again,
but for a recovery attached to it. -/
def replay (lines : List (Line β)) : Except FormatError (State σ) := do
  let s ← (State.start keep).applyAll keep 0 lines
  s.check keep
  return s

end

end Harpoon.Journal
