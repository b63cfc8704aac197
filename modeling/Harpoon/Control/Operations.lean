import Harpoon.Control.State
import Harpoon.Interact.Process

/-!
# The operations on pauses and events

What a trigger integration, the source executor and a developer's command do with the control records
(`control.rs`). Each operation reads the state, decides, and writes records to the journal; a record
is applied in memory once its write is acknowledged.
-/

namespace Harpoon.Control

open Deploy Interact

/-- The journal of control records: one write, and what became of it. -/
abbrev ControlSig : Signature := ⟨ControlRecord, fun _ => Written⟩

/-- Code that holds a `ControlState` and may fail with a `ControlError`. -/
abbrev Writing (α : Type) := Process ControlSig ControlState ControlError α

/-- Hand a record to the journal. -/
def control (r : ControlRecord) : Writing Unit := do
  match ← Process.perform (S := ControlSig) r with
  | .acknowledged => return ()
  | .failed e _ => throw (.journal e)

/-- Apply a record to the state in memory. -/
def applyRecord (r : ControlRecord) : Writing Unit := do
  match (← get).apply r with
  | .ok ctl => set ctl
  | .error why => throw (.conflict why)

/-- Write a record, then apply it. -/
def write (r : ControlRecord) : Writing Unit := do
  control r
  applyRecord r

def refuse {α : Type} (error : String → ControlError) : Except String α → Writing α :=
  Process.ofExcept error

/-! ## Pauses -/

def pauseRecord (c : PauseCandidate) : ControlRecord := .pause ⟨c.app, c.origin, c.kind, c.atMs, c.context⟩

/-- The pause of this deployment is recorded, or it is another application's and only `only`'s pauses
are wanted. -/
def skipsPause (ctl : ControlState) (only : Option ApplicationId) (c : PauseCandidate) : Bool :=
  (ctl.pauseOf c.origin).isSome || only.any fun a => a ≠ c.app

/-- Record the pauses that are not recorded yet; the number of them. -/
def recordPauses (only : Option ApplicationId) : List PauseCandidate → Writing Nat
  | [] => return 0
  | c :: cs => do
    if skipsPause (← get) only c then
      recordPauses only cs
    else
      write (pauseRecord c)
      return (← recordPauses only cs) + 1

def syncPausesWhere (deployments : List Deployment) (only : Option ApplicationId) : Writing Nat :=
  recordPauses only (pauseCandidates deployments)

/-- Record, once each, the pause of every pause-causing deployment that has no pause record yet. A
crash between two writes leaves the rest for the next call. -/
def syncPauses (deployments : List Deployment) : Writing Nat := syncPausesWhere deployments none

/-! ## Events -/

structure Incoming where
  app : ApplicationId
  deliveryId : String
  source : String
  revision : String
  receivedMs : Nat
  deriving DecidableEq, Repr

def Incoming.record (ev : Incoming) : EventRec :=
  ⟨ev.app, ev.deliveryId, ev.source, ev.revision, ev.receivedMs⟩

def Incoming.check (ev : Incoming) : Except String Unit := do
  checkDelivery ev.deliveryId
  checkSource ev.source
  checkRevision ev.revision

inductive Ingress where
  /-- The application is not paused: nothing was recorded. -/
  | notPaused
  | held
  /-- This delivery is already recorded with the same content: nothing was written. -/
  | duplicate
  deriving DecidableEq, Repr

def differentContent (ev : Incoming) : String :=
  s!"delivery {ev.deliveryId} of application {ev.app} is already recorded with different content; refused"

/-- A paused application records the event as held. Its pauses are recorded first. -/
def ingest (deployments : List Deployment) (ev : Incoming) : Writing Ingress := do
  refuse .invalid ev.check
  let ctl ← get
  match ctl.event ev.app ev.deliveryId with
  | some old =>
    if old.record = ev.record then return .duplicate
    else throw (.conflict (differentContent ev))
  | none =>
    if isPaused ev.app deployments ctl then
      let _ ← syncPausesWhere deployments (some ev.app)
      write (.event ev.record)
      return .held
    else return .notPaused

def differentSource (ev : Incoming) : String :=
  s!"delivery {ev.deliveryId} of application {ev.app} is already recorded with a different source or revision; refused"

/-- Queue an event whether or not the application is paused. A repeat with the same source and revision
is a duplicate; its arrival time may differ. -/
def queueEvent (ev : Incoming) : Writing Ingress := do
  refuse .invalid ev.check
  match (← get).event ev.app ev.deliveryId with
  | some old =>
    if old.record.source = ev.source ∧ old.record.revision = ev.revision then return .duplicate
    else throw (.conflict (differentSource ev))
  | none =>
    write (.event ev.record)
    return .held

/-! ## Execution -/

/-- What the source executor does next for one application. -/
inductive Next where
  /-- A decision selected this event: execute it. -/
  | selected (e : Event)
  /-- Execute the newest event, supersede the rest. -/
  | newest (chosen : Event) (superseded : List String)
  | nothing
  deriving DecidableEq, Repr

/-- What the executor runs, and the deliveries that it will supersede. -/
def Next.execution : Next → Option (Event × List String)
  | .selected e => some (e, [])
  | .newest chosen superseded => some (chosen, superseded)
  | .nothing => none

/-- The later of two events: by the time it was received, then by the place in the queue. The second
stands after the first. -/
def later (a b : Event) : Event :=
  if a.record.receivedMs ≤ b.record.receivedMs then b else a

/-- The newest of the queued events, which are in the order they were recorded. -/
def newestOf : List Event → Option Event
  | [] => none
  | e :: es => some (es.foldl later e)

/-- The deliveries of the other events. -/
def others (chosen : Event) (held : List Event) : List String :=
  (held.filter fun e => e.record.delivery ≠ chosen.record.delivery).map fun e => e.record.delivery

def nextExecution (deployments : List Deployment) (ctl : ControlState) (app : ApplicationId) : Next :=
  match ctl.pendingSelection app with
  | some e => .selected e
  | none =>
    if isPaused app deployments ctl then .nothing
    else
      match newestOf (ctl.held app) with
      | none => .nothing
      | some c => .newest c (others c (ctl.held app))

/-- Record that the executor consumed an event. It is validated before it is written. -/
def recordExec (x : ExecRec) : Writing Unit := do
  let probe ← refuse .conflict ((← get).apply (.exec x))
  control (.exec x)
  set probe

/-! ## Decisions -/

inductive Resumed where
  | dismissed (events pauses : Nat)
  /-- A held event was selected; nothing was deployed, and the pause stays. -/
  | selected (delivery revision : String) (superseded : Nat)
  /-- The same selection was already recorded. -/
  | alreadySelected (delivery : String)
  | nothingToDo
  deriving DecidableEq, Repr

def activeOf (deployments : List Deployment) (ctl : ControlState) (app : ApplicationId) : List ActivePause :=
  (activePauses deployments ctl).filter fun p => p.app = app

/-- The record of a dismissal: everything held, the pending selection, and the pauses in force. -/
def dismissal (deployments : List Deployment) (ctl : ControlState) (app : ApplicationId) (nowMs : Nat) :
    ResumeRec where
  app := app
  atMs := nowMs
  choice := .dismiss
  selected := none
  dismissed := ((ctl.held app) ++ (ctl.pendingSelection app).toList).map fun e => e.record.delivery
  superseded := []
  cleared := (activeOf deployments ctl app).map (·.origin)

def resumeDismiss (deployments : List Deployment) (app : ApplicationId) (nowMs : Nat) :
    Writing Resumed := do
  let ctl ← get
  if activeOf deployments ctl app = [] ∧ ctl.held app = [] ∧ ctl.pendingSelection app = none then
    return .nothingToDo
  else
    let x := dismissal deployments ctl app nowMs
    let _ ← syncPausesWhere deployments (some app)
    write (.resume x)
    return .dismissed x.dismissed.length x.cleared.length

def whyOthers : Choice → SupersededWhy
  | .newest => .newerSelected
  | .dismiss | .revision _ => .notChosen

/-- The record of a selection of `chosen`. -/
def selection (ctl : ControlState) (app : ApplicationId) (choice : Choice) (chosen : Event) (nowMs : Nat) :
    ResumeRec where
  app := app
  atMs := nowMs
  choice := choice
  selected := some chosen.record.delivery
  dismissed := []
  superseded := (others chosen (ctl.held app)).map fun d => (d, whyOthers choice)
  cleared := []

def alreadyPending (app : ApplicationId) (p : Event) : String :=
  s!"revision {p.record.revision} (delivery {p.record.delivery}) is already selected and pending attended execution; dismiss it with `resume --app {app} --dismiss` before choosing another"

def noHeldRevision (r : String) (held : List Event) : String :=
  s!"no held event has revision {r}; held revisions: " ++
    ", ".intercalate (held.map fun e => e.record.revision)

/-- The event a selection chooses among the held ones: the newest, or the newest of one revision. -/
def choose (app : ApplicationId) (choice : Choice) (held : List Event) : Except String Event :=
  match choice with
  | .revision r =>
    match newestOf (held.filter fun e => e.record.revision = r) with
    | some e => .ok e
    | none => .error (noHeldRevision r held)
  | .dismiss | .newest =>
    match newestOf held with
    | some e => .ok e
    | none => .error s!"application {app} has no held event to select"

/-- A revision to be chosen is well formed. -/
def checkChoice : Choice → Except String Unit
  | .revision r => checkRevision r
  | .dismiss | .newest => .ok ()

def resumeSelect (app : ApplicationId) (choice : Choice) (nowMs : Nat) : Writing Resumed := do
  refuse .invalid (checkChoice choice)
  let ctl ← get
  match ctl.pendingSelection app with
  | some p =>
    if choice = .revision p.record.revision then return .alreadySelected p.record.delivery
    else throw (.conflict (alreadyPending app p))
  | none =>
    if ctl.held app = [] then throw (.conflict s!"application {app} has no held event to select")
    else
      let chosen ← refuse .conflict (choose app choice (ctl.held app))
      let x := selection ctl app choice chosen nowMs
      write (.resume x)
      return .selected chosen.record.delivery chosen.record.revision x.superseded.length

/-- One developer decision for one application. Everything is validated before anything is written. -/
def resume (deployments : List Deployment) (app : ApplicationId) (choice : Choice) (nowMs : Nat) :
    Writing Resumed :=
  match choice with
  | .dismiss => resumeDismiss deployments app nowMs
  | .newest | .revision _ => resumeSelect app choice nowMs

/-! ## Any operation -/

/-- A call of one of the operations. Each call is given the deployments as they are then. -/
inductive ControlOp where
  | queueEvent (ev : Incoming)
  | ingest (deployments : List Deployment) (ev : Incoming)
  | recordExec (x : ExecRec)
  | resume (deployments : List Deployment) (app : ApplicationId) (choice : Choice) (nowMs : Nat)
  | syncPauses (deployments : List Deployment)

/-- What a call returns. -/
inductive Outcome where
  | ingress (i : Ingress)
  | recorded
  | resumed (r : Resumed)
  | synced (pauses : Nat)
  deriving DecidableEq, Repr

def ControlOp.run : ControlOp → Writing Outcome
  | .queueEvent ev => .ingress <$> Control.queueEvent ev
  | .ingest deployments ev => .ingress <$> Control.ingest deployments ev
  | .recordExec x => do
    Control.recordExec x
    return .recorded
  | .resume deployments app choice nowMs => .resumed <$> Control.resume deployments app choice nowMs
  | .syncPauses deployments => .synced <$> Control.syncPauses deployments

end Harpoon.Control
