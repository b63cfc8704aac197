import Harpoon.Deploy.Engine
import Harpoon.Docker.Steps

/-!
# Runs with the Docker backend

A run of the engine with `DockerBackend` behind it. Its history holds what the engine asked and, between
the beginning of a call and its result, what the backend asked to serve it. The backend keeps one state
for the whole run, and is handed the ledger as the acknowledged records leave it.
-/

namespace Harpoon.Docker

open Interact Deploy

/-- What the engine's surroundings see of an event. -/
def engineEvent : Event StepSig → Option (Event EngineSig)
  | ⟨.engine op, answer⟩ => some ⟨op, answer⟩
  | ⟨.host _, _⟩ => none

def engineSide (h : History StepSig) : History EngineSig := h.filterMap engineEvent

/-- An event of the engine's, among both. -/
def engines (e : Event EngineSig) : Event StepSig := ⟨.engine e.op, e.answer⟩

variable (self : DockerBackend)

/-- The backend's code in the state `st`, on the `StepIo` `io`. -/
def serving {α : Type} (x : Docker α) (st : State) (io : StepIo) :
    Program StepSig (Except Empty (Except StepError α × State) × StepIo) :=
  (serve (x.toProgram st) : Process StepSig StepIo Empty (Except StepError α × State)).toProgram io

/-- How the backend answers what the engine asks of it without a `StepIo`. -/
def Answers (st : State) : Event EngineSig → Prop
  | ⟨.pinnedConfig, pinned⟩ => pinned = pinnedConfig self st
  | ⟨.supportsCutover, supports⟩ => supports = self.cfg.enableReplacement
  | ⟨.acceptsSimulatedEvidence, accepts⟩ => accepts = self.simulated
  | ⟨.call _ _, _⟩ | ⟨.result _, _⟩ | ⟨.listResources, _⟩ | ⟨.removeResource _, _⟩ => False
  | _ => True

/-- The ledger after an event of the engine's. -/
def ledgerAfter (l : Ledger) : Event EngineSig → Ledger
  | ⟨.record r, .acknowledged⟩ => (l.apply r).2
  | _ => l

/-- The history leaves the backend in the state `st`, and the ledger `l`, between two calls. -/
inductive Docked (app : ApplicationId) (dep : DeploymentId) (st₀ : State) (l₀ : Ledger) :
    History StepSig → State → Ledger → Prop where
  | start : Docked app dep st₀ l₀ [] st₀ l₀
  /-- A call, from the `StepIo` it is handed to its result. -/
  | call {h k : History StepSig} {st st' : State} {io io' : StepIo} {c : Call} {script : Script}
      {res : Except StepError c.Ret} (docked : Docked app dep st₀ l₀ h st io.ledger) (ofApp : io.app = app)
      (ofDep : io.dep = dep) (served : Program.Follows (serving (perform self c) st io) k (.done (.ok (res, st'), io'))) :
      Docked app dep st₀ l₀
        (h ++ (engines ⟨.call c io.budgetMs, script⟩ :: k ++ [engines ⟨.result c, res⟩])) st' io'.ledger
  /-- Whatever else the engine asks. -/
  | ask {h : History StepSig} {st : State} {l : Ledger} {e : Event EngineSig} (docked : Docked app dep st₀ l₀ h st l)
      (answers : Answers self st e) : Docked app dep st₀ l₀ (h ++ [engines e]) st (ledgerAfter l e)
  | list {h k : History StepSig} {st st' : State} {l : Ledger} {io io' : StepIo} {listed : Except StepError (List Observed)}
      (docked : Docked app dep st₀ l₀ h st l)
      (served : Program.Follows (serving (listResources self) st io) k (.done (.ok (listed, st'), io'))) :
      Docked app dep st₀ l₀ (h ++ (k ++ [engines ⟨.listResources, listed⟩])) st' l
  | remove {h k : History StepSig} {st st' : State} {l : Ledger} {io io' : StepIo} {req : RemoveRequest}
      {answer : Except StepError RemoveResult} (docked : Docked app dep st₀ l₀ h st l)
      (served : Program.Follows (serving (removeResource self req) st io) k (.done (.ok (answer, st'), io'))) :
      Docked app dep st₀ l₀ (h ++ (k ++ [engines ⟨.removeResource req, answer⟩])) st' l

/-- The engine, driving a deployment or restoring one explicitly, asked what the history says. -/
inductive Driven (d : Deployment) (cfg : RunConfig) (h : History EngineSig) : Prop where
  | run {ctx : Context} {q : Program EngineSig (Except EngineError Report × Run)}
      (follows : Program.Follows (runDeploymentConfirmed d ctx cfg) h q)
  | recover {prev : PreviousRelease} {q : Program EngineSig (Except EngineError Report × Run)}
      (follows : Program.Follows (recoverCutover d prev cfg) h q)

/-- A call that is under way: the run up to it, and what the backend asked since, with what it has left to
do. -/
structure Underway (backend : DockerBackend) (d : Deployment) (cfg : RunConfig) (st₀ : State) (h : History StepSig)
    (c : Call) (st : State) (io : StepIo) (k : History StepSig)
    (left : Program StepSig (Except Empty (Except StepError c.Ret × State) × StepIo)) : Prop where
  docked : Docked backend d.applicationId d.id st₀ cfg.priorLedger h st io.ledger
  ofApp : io.app = d.applicationId
  ofDep : io.dep = d.id
  driven : ∃ script, Driven d cfg (engineSide h ++ [⟨.call c io.budgetMs, script⟩])
  served : Program.Follows (serving (perform backend c) st io) k left

end Harpoon.Docker
