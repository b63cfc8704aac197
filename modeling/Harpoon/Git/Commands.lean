import Harpoon.Control.Operations
import Harpoon.Journal.File

/-!
# The commands on Git sources

What the source executor does with one queued event (`git_cmds.rs`). It reads the state without holding
the journal, deploys, and only then opens the journal for writing to record what came of it. Another
process may write between any two of these.
-/

namespace Harpoon.Git

open Deploy Control Interact

/-- How a command fails. -/
structure Fail where
  code : Int
  message : String
  deriving DecidableEq, Repr

namespace Fail

def journal (message : String) : Fail := ⟨4, message⟩

def refused (message : String) : Fail := ⟨6, message⟩

def failed (message : String) : Fail := ⟨7, message⟩

end Fail

/-- The text of a refused or failed control operation. -/
def controlMessage : ControlError → String
  | .invalid why | .conflict why => why
  | .journal e => s!"journal write failed: {Journal.FileJournal.debug e}"

/-! ## The executor -/

/-- What deploying a source came to. -/
structure Ran where
  deployment : Option DeploymentId
  code : Int
  deriving DecidableEq, Repr

/-- What the executor asks of its surroundings. -/
inductive DrainOp where
  /-- Read the state, without holding the journal. -/
  | state
  /-- Check out the event's commit and deploy it. An error says that nothing was deployed. -/
  | runSource (e : EventRec)
  /-- Open the journal for writing and read the state. No other process writes until it is closed. -/
  | openWriter
  | now
  | control (r : ControlRecord)
  deriving DecidableEq

def DrainOp.Answer : DrainOp → Type
  | .state => Except Fail (List Deployment × ControlState)
  | .runSource _ => Except String Ran
  | .openWriter => Except Fail ControlState
  | .now => Nat
  | .control _ => Written

abbrev DrainSig : Signature := ⟨DrainOp, DrainOp.Answer⟩

/-- The executor's code, with the lines it prints. -/
abbrev Draining (α : Type) := Process DrainSig (List String) Fail α

def print (line : String) : Draining Unit := modify (· ++ [line])

def answered {ρ α : Type} : Except Fail α → Process DrainSig ρ Fail α := Process.ofExcept id

/-- What is recorded of a run: what became of the event, its deployment, and why there is none. -/
def ranOutcome : Except String Ran → ExecOutcome × Option DeploymentId × String
  | .ok ⟨some d, _⟩ => (.deployed, some d, "")
  | .ok ⟨none, code⟩ => (.failed, none, s!"the deployment was refused before it started (exit {code})")
  | .error why => (.failed, none, why)

/-- The first 300 characters of a reason, without control characters. -/
def shortened (reason : String) : String :=
  String.ofList ((reason.toList.filter fun c => !Envvars.isControl c).take 300)

/-- The record of a run of `e`. -/
def execution (app : ApplicationId) (e : Event) (superseded : List String) (ran : Except String Ran) (atMs : Nat) :
    ExecRec :=
  let (outcome, deployment, reason) := ranOutcome ran
  ⟨app, e.record.delivery, outcome, deployment, shortened reason, superseded, atMs⟩

def executing (e : Event) (superseded : List String) : String :=
  s!"executing delivery {e.record.delivery} ({e.record.source}) at {e.record.revision}" ++
    if superseded.isEmpty then "" else s!"; supersedes {superseded.length} older queued event(s)"

def executed (x : ExecRec) : String :=
  match x.outcome, x.deployment with
  | .deployed, some d => s!"delivery {x.delivery} executed as deployment {d}"
  | .deployed, none | .failed, _ => s!"delivery {x.delivery} NOT deployed: {x.reason}"

/-- Ask the journal that is open for writing. -/
def recording (r : ControlRecord) : Program DrainSig Written := Program.perform (S := DrainSig) (.control r)

/-- Execute one queued event of an application. Whether anything ran. -/
def drainApp (app : ApplicationId) : Draining Bool := do
  let (deployments, ctl) ← answered (← Process.perform (S := DrainSig) .state)
  match (nextExecution deployments ctl app).execution with
  | none => return false
  | some (e, superseded) =>
    print (executing e superseded)
    let ran ← Process.perform (S := DrainSig) (.runSource e.record)
    let restored ← answered (← Process.perform (S := DrainSig) .openWriter)
    let atMs ← Process.perform (S := DrainSig) .now
    let x := execution app e superseded ran atMs
    match ← Process.embed (Process.via recording (recordExec x)) restored with
    | (.error why, _) => throw (.journal (controlMessage why))
    | (.ok (), _) =>
      print (executed x)
      return true

end Harpoon.Git
