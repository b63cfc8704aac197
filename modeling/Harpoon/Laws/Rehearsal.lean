import Harpoon.Laws.Removals

/-!
# Rehearsed runs

A run of the engine against the Docker backend, in surroundings with fixed answers: what the engine asks of
the backend is answered by the backend itself, in the state that the calls before left. Whatever is rehearsed
is a run.
-/

namespace Harpoon.Docker

open Interact Deploy

/-! ## The backend -/

/-- What the backend does with its `StepIo`, where the surroundings answer by a fixed rule. -/
def scriptOf {α : Type} (host : (op : HostOp) → op.Answer) : Program BackendSig α → Script
  | .done _ => .done ()
  | .ask (.io op) next => .ask op fun answer => scriptOf host (next answer)
  | .ask (.host op) next => scriptOf host (next (host op))

section

variable {α β : Type} (self : DockerBackend) (app : ApplicationId) (dep : DeploymentId) (answers : (op : StepOp) → op.Answer)

/-- The backend's code, played to its end: the history, the outcome, and what it leaves. -/
def played (x : Docker α) (st : State) (io : StepIo) : History StepSig × (Except StepError α × State) × StepIo :=
  match (serving x st io).play answers with
  | (h, .ok out, io) => (h, out, io)

/-- How an engine operation other than a call is answered. -/
def answerOf (st : State) : (op : EngineOp) → op.Answer
  | .pinnedConfig => pinnedConfig self st
  | .supportsCutover => self.cfg.enableReplacement
  | .acceptsSimulatedEvidence => self.simulated
  | op => answers (.engine op)

def stepIo (budgetMs : Nat) (l : Ledger) : StepIo := ⟨budgetMs, .new .default .none, l, app, dep⟩

/-! ## The run -/

/-- What happens when the engine asks `op`, to the end of the call if it is one. -/
def segment (st : State) (l : Ledger) : EngineOp → History StepSig × State × Ledger
  | .call c budgetMs =>
    let ran := played answers (perform self c) st (stepIo app dep budgetMs l)
    let script := scriptOf (fun op => answers (.host op)) ((perform self c).toProgram st)
    (engines ⟨.call c budgetMs, script⟩ :: ran.1 ++ [engines ⟨.result c, ran.2.1.1⟩], ran.2.1.2, ran.2.2.ledger)
  | .listResources =>
    let ran := played answers (listResources self) st (stepIo app dep 0 l)
    (ran.1 ++ [engines ⟨.listResources, ran.2.1.1⟩], ran.2.1.2, l)
  | .removeResource req =>
    let ran := played answers (removeResource self req) st (stepIo app dep 0 l)
    (ran.1 ++ [engines ⟨.removeResource req, ran.2.1.1⟩], ran.2.1.2, l)
  | .result _ => ([], st, l)
  | op => ([engines ⟨op, answerOf self answers st op⟩], st, ledgerAfter l ⟨op, answerOf self answers st op⟩)

/-- A run, as far as it went. -/
structure Stage (β : Type) where
  history : History StepSig
  st : State
  ledger : Ledger
  left : Program EngineSig β

/-- One thing more that the engine asks. -/
def Stage.advance (stage : Stage β) : Option (Stage β) :=
  match stage.left with
  | .done _ => none
  | .ask op _ =>
    let next := segment self app dep answers stage.st stage.ledger op
    (stage.left.follow (engineSide next.1)).map (Stage.mk (stage.history ++ next.1) next.2.1 next.2.2)

/-- So many things that the engine asks. -/
def Stage.rehearse : Nat → Stage β → Stage β
  | 0, stage => stage
  | n + 1, stage =>
    match stage.advance self app dep answers with
    | some next => Stage.rehearse n next
    | none => stage

end

section

variable {α β : Type} {self : DockerBackend} {app : ApplicationId} {dep : DeploymentId}
  {answers : (op : StepOp) → op.Answer} {st₀ st : State} {l₀ l : Ledger} {h : History StepSig} {io : StepIo}
  {p : Program EngineSig β} {stage next : Stage β}

theorem played_follows {x : Docker α} :
    Program.Follows (serving x st io) (played answers x st io).1
      (.done (.ok (played answers x st io).2.1, (played answers x st io).2.2)) := by
  have follows := Program.play_follows answers (serving x st io)
  unfold played
  generalize (serving x st io).play answers = ran at follows
  obtain ⟨h, ⟨e⟩ | out, io⟩ := ran
  · exact e.elim
  · exact follows

/-- A run that ended with a value. -/
theorem played_value {x : Docker α} {value : α} (ended : (played answers x st io).2.1.1.toOption = some value) :
    Program.Follows (serving x st io) (played answers x st io).1
      (.done (.ok (.ok value, (played answers x st io).2.1.2), (played answers x st io).2.2)) := by
  have follows : Program.Follows (serving x st io) (played answers x st io).1 _ := played_follows
  generalize played answers x st io = ran at follows ended ⊢
  obtain ⟨h, ⟨⟨e⟩ | ⟨got⟩, st'⟩, io'⟩ := ran
  · cases ended
  · cases ended
    exact follows

theorem played_answers {x : Docker α} {e : Event StepSig} (mem : e ∈ (played answers x st io).1) :
    e.answer = answers e.op := by
  unfold played at mem
  split at mem
  next h out io' ran =>
    refine Program.play_answers (p := serving x st io) ?_
    rw [ran]
    exact mem

theorem segment_docked {op : EngineOp} (docked : Docked self app dep st₀ l₀ h st l) :
    Docked self app dep st₀ l₀ (h ++ (segment self app dep answers st l op).1) (segment self app dep answers st l op).2.1
      (segment self app dep answers st l op).2.2 := by
  cases op with
  | call c budgetMs =>
    have docked : Docked self app dep st₀ l₀ h st (stepIo app dep budgetMs l).ledger := docked
    exact docked.call rfl rfl played_follows
  | listResources => exact docked.list played_follows
  | removeResource req => exact docked.remove played_follows
  | result c => exact (List.append_nil h).symm ▸ docked
  | pinnedConfig => exact docked.ask rfl
  | supportsCutover => exact docked.ask rfl
  | acceptsSimulatedEvidence => exact docked.ask rfl
  | _ => exact docked.ask trivial

/-- The run of `p` against the backend reaches the stage. -/
structure Stage.Reached (backend : DockerBackend) (app : ApplicationId) (dep : DeploymentId) (st₀ : State) (l₀ : Ledger)
    (p : Program EngineSig β) (stage : Stage β) : Prop where
  docked : Docked backend app dep st₀ l₀ stage.history stage.st stage.ledger
  follows : Program.Follows p (engineSide stage.history) stage.left

theorem Stage.Reached.advance (reached : stage.Reached self app dep st₀ l₀ p)
    (some_ : stage.advance self app dep answers = some next) : next.Reached self app dep st₀ l₀ p := by
  unfold Stage.advance at some_
  split at some_
  · cases some_
  · obtain ⟨left, followed, rfl⟩ := Option.map_eq_some_iff.mp some_
    refine ⟨segment_docked reached.docked, ?_⟩
    show Program.Follows p (engineSide (_ ++ _)) left
    rw [engineSide_append]
    exact reached.follows.trans (Program.follow_follows followed)

theorem Stage.Reached.rehearse {n : Nat} (reached : stage.Reached self app dep st₀ l₀ p) :
    (stage.rehearse self app dep answers n).Reached self app dep st₀ l₀ p := by
  induction n generalizing stage with
  | zero => exact reached
  | succ n ih =>
    unfold Stage.rehearse
    split
    · next some_ => exact ih (reached.advance some_)
    · exact reached

/-- What a program asks next. -/
def asksNext : Program EngineSig β → Option EngineOp
  | .done _ => none
  | .ask op _ => some op

/-- The call that the engine begins next, as far as it went. -/
theorem Stage.Reached.underway {d : Deployment} {ctx : Context} {cfg : RunConfig} {c : Call} {budgetMs : Nat}
    {k : History StepSig} {stage : Stage (Except EngineError Report × Run)}
    {left : Program StepSig (Except Empty (Except StepError c.Ret × State) × StepIo)}
    (reached : stage.Reached self d.applicationId d.id st₀ cfg.priorLedger (runDeploymentConfirmed d ctx cfg))
    (calls : asksNext stage.left = some (.call c budgetMs))
    (served : Program.Follows (serving (perform self c) stage.st (stepIo d.applicationId d.id budgetMs stage.ledger)) k left) :
    Underway self d cfg st₀ stage.history c stage.st (stepIo d.applicationId d.id budgetMs stage.ledger) k left where
  docked := reached.docked
  ofApp := rfl
  ofDep := rfl
  driven := by
    have reach := reached.follows
    generalize stage.left = left at calls reach
    cases left with
    | done value => cases calls
    | ask op next =>
      cases calls
      have begun : Program.Follows (Program.ask (S := EngineSig) (EngineOp.call c budgetMs) next)
          [⟨.call c budgetMs, .done ()⟩] (next (.done ())) := .step _ (.here _)
      exact ⟨.done (), .run (reach.trans begun)⟩
  served := served

/-- A rehearsal from the beginning is a run. -/
theorem rehearsed {n : Nat} : ((Stage.mk [] st₀ l₀ p).rehearse self app dep answers n).Reached self app dep st₀ l₀ p :=
  Stage.Reached.rehearse ⟨.start, .here p⟩

end

end Harpoon.Docker
