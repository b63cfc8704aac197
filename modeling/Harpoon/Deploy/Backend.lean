import Harpoon.Deploy.Ledger
import Harpoon.Deploy.State
import Harpoon.Interact.Program

/-!
# The seam to the runtime

What the engine asks of a backend (`backend.rs`), and what a backend may do while it answers: use the
`StepIo` it is handed. Nothing is assumed of a backend. It uses its `StepIo` as it likes, in any order
and for as long as it likes, as long as it returns; what it does next may depend on every answer it
got, so a use of a `StepIo` is itself a program, over the signature `IoSig`.
-/

namespace Harpoon.Deploy

open Interact

inductive JournalError where
  /-- The process dies at this exact write. -/
  | crash
  | io (message : String)
  deriving DecidableEq, Repr

/-- A step failed. -/
structure StepError where
  message : String
  /-- The backend gave up because its deadline passed. -/
  timedOut : Bool
  /-- For a failed health check: what was actually observed. -/
  evidence : Option CheckEvidence
  /-- A journal write failed inside the step: the engine stops and returns the error. -/
  fatal : Option JournalError
  deriving DecidableEq, Repr

namespace StepError

def new (message : String) : StepError := ⟨message, false, none, none⟩

def timeout (message : String) : StepError := { new message with timedOut := true }

def withEvidence (e : StepError) (ev : CheckEvidence) : StepError := { e with evidence := some ev }

def ofJournal (e : JournalError) : StepError := { new "journal write failed" with fatal := some e }

end StepError

/-- Result of the one bounded restoration attempt, as reported by the backend. -/
inductive RestoreResult where
  | healthy
  /-- Started, but its check failed or was inconclusive. -/
  | startedUnverified
  | failed (why : Reason)
  /-- Could not even try. -/
  | notAttempted (why : Reason)
  deriving DecidableEq, Repr

/-- A recorded container: which deployment's ledger holds it, and its name. -/
structure ContainerRef where
  owner : DeploymentId
  name : String
  deriving DecidableEq, Repr

/-- The release a cutover replaces, as the engine knows it. -/
structure PreviousRelease where
  release : ReleaseId
  /-- The deployment that built the release. -/
  deployment : DeploymentId
  /-- The pinned configuration, if it was ever stored. -/
  config : Option ReleaseConfig
  /-- The container that serves it, when that is not the release's own. -/
  container : Option ContainerRef
  deriving DecidableEq, Repr

/-! ## Calls -/

/-- The calls that get a `StepIo`. -/
inductive Call where
  | prepareSource
  | build
  /-- Check the new release while the old one is still running. -/
  | preliminaryCheck
  /-- Decide, before anything is created or stopped, what the new release will serve with. -/
  | planRelease
  /-- Stop the previous, healthy release. -/
  | stopCurrent (previous : PreviousRelease)
  | startNew
  /-- Check the new release after the switch. -/
  | finalCheck
  /-- Stop a new release that started but failed, to free its address before restoring. -/
  | stopNew
  /-- Problems that make a restoration unsafe to start, found by reading only. -/
  | restoreBlockers (previous : PreviousRelease)
  /-- One bounded attempt to bring the previous release back. -/
  | restorePrevious (previous : PreviousRelease) (budgetMs : Nat)
  deriving DecidableEq, Repr

/-- What a call returns when it succeeds. -/
abbrev Call.Ret : Call → Type
  | .preliminaryCheck | .finalCheck => CheckEvidence
  | .planRelease => Option ReleaseConfig
  | .restoreBlockers _ => List String
  | .restorePrevious _ _ => RestoreResult
  | .prepareSource | .build | .stopCurrent _ | .startNew | .stopNew => Unit

/-! ## What a call may do -/

/-- A recorded intent to create one object. Only `StepIo.intend` makes one, and a receipt needs
one. -/
structure Intent where
  key : ResourceKey
  deriving DecidableEq, Repr

/-- The methods of `StepIo`. -/
inductive IoOp where
  /-- Record, durably, that an object is about to be created. -/
  | intend (key : ResourceKey) (disposition : Disposition)
  /-- Record the actual id the runtime returned. -/
  | receipt (intent : Intent) (id : String)
  | cleanupAttempt (key : ResourceKey)
  | cleanupResult (key : ResourceKey) (outcome : CleanupOutcome)
  /-- Reserve a host port: intent and receipt in one call. -/
  | leasePort (hostPort : UInt16)
  /-- Give a reserved port back right away. -/
  | releaseLease (hostPort : UInt16)
  | nowMs
  | budgetMs
  | app
  | deployment
  | ledger
  | pushChunk (text : String)
  | pushLine (text : String)
  | pushText (text : String)
  | redact (text : String)
  deriving DecidableEq, Repr

abbrev IoOp.Answer : IoOp → Type
  | .intend _ _ | .leasePort _ => Except StepError Intent
  | .receipt _ _ | .cleanupAttempt _ | .cleanupResult _ _ | .releaseLease _ => Except StepError Unit
  | .nowMs | .budgetMs => Nat
  | .app => ApplicationId
  | .deployment => DeploymentId
  | .ledger => Ledger
  | .pushChunk _ | .pushLine _ | .pushText _ => Unit
  | .redact _ => String

abbrev IoSig : Signature := ⟨IoOp, IoOp.Answer⟩

/-- What a backend does with its `StepIo` during one call. -/
abbrev Script := Program IoSig Unit

end Harpoon.Deploy
