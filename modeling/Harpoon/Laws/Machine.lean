import Harpoon.Laws.Transitions

/-!
# Any sequence of calls

A deployment goes through calls of its state machine in any order. A call that is refused leaves it as it
is. Beside the record, `Watched` keeps what the calls say of the service: a cutover that begins interrupts
it, and the interruption lasts until the cutover is confirmed or a release is restored. The record always
agrees with that, and what it says of its own end is final.
-/

namespace Harpoon.Deploy

/-- One call on a deployment. -/
inductive StateOp where
  | transition (target : DeploymentStatus) (nowMs : Nat)
  | startStep (s : Step) (nowMs : Nat)
  | finishStep (s : Step) (ok : Bool) (note : String) (nowMs : Nat)
  | beginCutover (nowMs : Nat)
  | cutoverNotRequired
  | confirmCutover (nowMs : Nat)
  | failCutover (nowMs : Nat)
  | startRecovery (budgetMs nowMs : Nat)
  | beginExplicitRecovery (budgetMs nowMs : Nat)
  | finishRecovery (outcome : RecoveryOutcome) (nowMs : Nat)
  /-- The startup recovery of this deployment. -/
  | recoverOnStart (nowMs : Nat)
  deriving DecidableEq, Repr

namespace StateOp

def run : StateOp → Deployment → Except TransitionError Deployment
  | .transition target nowMs, d => d.transition target nowMs
  | .startStep s nowMs, d => d.startStep s nowMs
  | .finishStep s ok note nowMs, d => d.finishStep s ok note nowMs
  | .beginCutover nowMs, d => d.beginCutover nowMs
  | .cutoverNotRequired, d => d.cutoverNotRequired
  | .confirmCutover nowMs, d => d.confirmCutover nowMs
  | .failCutover nowMs, d => d.failCutover nowMs
  | .startRecovery budgetMs nowMs, d => d.startRecovery budgetMs nowMs
  | .beginExplicitRecovery budgetMs nowMs, d => d.beginExplicitRecovery budgetMs nowMs
  | .finishRecovery outcome nowMs, d => d.finishRecovery outcome nowMs
  | .recoverOnStart nowMs, d => .ok (recoverDeployment d nowMs).1

/-- Whether the service is interrupted after a call that was accepted. -/
def interrupts : StateOp → Bool → Bool
  | .beginCutover _, _ => true
  | .confirmCutover _, _ => false
  | .finishRecovery outcome _, down => down && !outcome.serviceRestored
  | _, down => down

end StateOp

/-- A deployment, and whether a cutover of it interrupted the service. -/
structure Watched where
  d : Deployment
  down : Bool

namespace Watched

def new (id : DeploymentId) (app : ApplicationId) (trigger : Trigger) (createdMs : Nat) : Watched :=
  ⟨.new id app trigger createdMs, false⟩

/-- A refused call changes nothing. -/
def step (w : Watched) (op : StateOp) : Watched :=
  match op.run w.d with
  | .ok d => ⟨d, op.interrupts w.down⟩
  | .error _ => w

def run (w : Watched) (ops : List StateOp) : Watched := ops.foldl step w

end Watched

/-! ## What one call changes -/

namespace Deployment

variable {d d' : Deployment} {ms : Nat}

/-- Nothing of the cutover or the recovery changed, and an ended deployment kept its status. -/
structure Untouched (d d' : Deployment) : Prop where
  cutover : d'.cutover = d.cutover
  recovery : d'.recovery = d.recovery
  interruption : d'.interruption = d.interruption
  status : d.status.isTerminal = true → d'.status = d.status

theorem StepMoved.untouched {s : Step} {target : StepStatus} (h : StepMoved d s target d') : Untouched d d' :=
  ⟨h.cutover_eq, h.recovery_eq, congrArg (·.interruption) h.rest, fun _ => h.status_eq⟩

theorem canTransitionTo_of_isTerminal {source target : DeploymentStatus} (ended : source.isTerminal = true) :
    source.canTransitionTo target = false := by
  cases source with
  | requested | queued | running => cases ended
  | succeeded | failed | cancelled | interrupted | superseded => rfl

theorem transition_untouched {target : DeploymentStatus} (h : d.transition target ms = .ok d') : Untouched d d' := by
  obtain ⟨allowed, moved⟩ := transition_ok h
  refine ⟨moved.cutover, moved.recovery, ?_, fun ended => ?_⟩
  · unfold transition at h
    rw [if_pos allowed] at h
    cases h
    cases target <;> rfl
  · rw [canTransitionTo_of_isTerminal ended] at allowed
    cases allowed

theorem running_of_skipPending {s : Step} (now : (d.skipPending.step s).status = .running) :
    (d.step s).status = .running := by
  simp only [skipPending, step, StepTable.record_map] at now
  split at now
  · cases now
  · exact now

/-- A move to another status starts no step. -/
theorem running_of_transition {s : Step} {target : DeploymentStatus} (h : d.transition target ms = .ok d')
    (now : (d'.step s).status = .running) : (d.step s).status = .running := by
  have allowed := (transition_ok h).1
  unfold transition at h
  rw [if_pos allowed] at h
  cases h
  cases target with
  | requested | queued | running => exact now
  | succeeded | failed | cancelled | interrupted | superseded => exact running_of_skipPending now

/-- The recovery that a start closes says no more of the service than before. -/
def closedRecovery (ms : Nat) (r : Recovery) : Recovery :=
  if r.outcome = .inProgress then { r with outcome := .restoreFailed .interrupted, finishedMs := some ms } else r

theorem serviceRestored_closedRecovery (r : Recovery) :
    (closedRecovery ms r).outcome.serviceRestored = r.outcome.serviceRestored := by
  unfold closedRecovery
  split
  next inProgress => rw [inProgress]; rfl
  next => rfl

/-- What a start leaves of a deployment. -/
structure Restarted (d d' : Deployment) : Prop where
  cutover : d'.cutover = d.cutover
  recovery : d'.recovery = d.recovery ∨ ∃ ms, d'.recovery = d.recovery.map (closedRecovery ms)
  interruption : d'.interruption = d.interruption
  status : d.status.isTerminal = true → d'.status = d.status

theorem restarted_close : Restarted d (closeUnfinishedRecovery d ms) :=
  ⟨rfl, .inr ⟨ms, rfl⟩, rfl, fun _ => rfl⟩

theorem recoverDeployment_restarted : Restarted d (recoverDeployment d ms).1 := by
  unfold recoverDeployment
  split
  next ended =>
    split
    · exact restarted_close
    · exact ⟨rfl, .inl rfl, rfl, fun _ => rfl⟩
  next running =>
    have closed : Restarted d (closeUnfinishedRecovery (interruptRunningSteps d ms) ms) :=
      ⟨rfl, .inr ⟨ms, rfl⟩, rfl, fun _ => rfl⟩
    dsimp only
    split
    next moved =>
      have kept := transition_untouched moved
      refine ⟨kept.cutover.trans closed.cutover, ?_, kept.interruption.trans closed.interruption,
        fun ended => absurd ended running⟩
      rw [kept.recovery]
      exact closed.recovery
    next => exact closed

end Deployment

/-! ## The invariant -/

/-- The record agrees with what the calls say of the service. -/
structure Watched.Consistent (w : Watched) : Prop where
  recovery : w.d.recovery.isSome = true → w.d.cutover.isFailed = true
  down : w.d.applicationMayBeDown = w.down
  interruption : (w.d.interruption.any fun i => i.endedMs.isNone) = w.down

namespace Watched

open Deployment

variable {w : Watched} {d' : Deployment} {op : StateOp} {ms : Nat}

theorem consistent_new {id : DeploymentId} {app : ApplicationId} {trigger : Trigger} :
    (new id app trigger ms).Consistent := ⟨fun some => (by cases some), rfl, rfl⟩

theorem Consistent.untouched (consistent : w.Consistent) (same : Untouched w.d d') :
    Consistent ⟨d', w.down⟩ where
  recovery := by rw [same.recovery, same.cutover]; exact consistent.recovery
  down := by
    have before := consistent.down
    unfold applicationMayBeDown at before ⊢
    rw [same.recovery, same.cutover]
    exact before
  interruption := by rw [same.interruption]; exact consistent.interruption

theorem Consistent.no_recovery (consistent : w.Consistent) (other : w.d.cutover.isFailed = false) :
    w.d.recovery = none := by
  cases found : w.d.recovery with
  | none => rfl
  | some r =>
    have failed := consistent.recovery (by rw [found]; rfl)
    exact absurd (other.symm.trans failed) Bool.false_ne_true

theorem Consistent.beginCutover (consistent : w.Consistent) (h : w.d.beginCutover ms = .ok d') :
    Consistent ⟨d', true⟩ := by
  unfold Deployment.beginCutover at h
  split at h
  next untouched =>
    have none := consistent.no_recovery (by rw [untouched]; rfl)
    cases h
    refine ⟨fun some => ?_, rfl, rfl⟩
    have some : w.d.recovery.isSome = true := some
    rw [none] at some
    cases some
  next => cases h

theorem Consistent.cutoverNotRequired (consistent : w.Consistent) (h : w.d.cutoverNotRequired = .ok d') :
    Consistent ⟨d', w.down⟩ := by
  unfold Deployment.cutoverNotRequired at h
  split at h
  next untouched =>
    have none := consistent.no_recovery (by rw [untouched]; rfl)
    have up := consistent.down
    rw [applicationMayBeDown, untouched] at up
    cases h
    refine ⟨fun some => ?_, up, consistent.interruption⟩
    have some : w.d.recovery.isSome = true := some
    rw [none] at some
    cases some
  next => cases h

theorem Consistent.confirmCutover (consistent : w.Consistent) (h : w.d.confirmCutover ms = .ok d') :
    Consistent ⟨d', false⟩ := by
  unfold Deployment.confirmCutover at h
  split at h
  next begun =>
    have none := consistent.no_recovery (by rw [begun]; rfl)
    cases h
    refine ⟨fun some => ?_, rfl, ?_⟩
    · have some : w.d.recovery.isSome = true := some
      rw [none] at some
      cases some
    · show ((w.d.interruption.map _).any _) = false
      cases w.d.interruption <;> rfl
  next => cases h

theorem Consistent.failCutover (consistent : w.Consistent) (h : w.d.failCutover ms = .ok d') :
    Consistent ⟨d', w.down⟩ := by
  unfold Deployment.failCutover at h
  split at h
  next begun =>
    have none := consistent.no_recovery (by rw [begun]; rfl)
    have down := consistent.down
    rw [applicationMayBeDown, begun] at down
    cases h
    refine ⟨fun _ => rfl, ?_, consistent.interruption⟩
    show (!(w.d.recovery.any _)) = w.down
    rw [none]
    exact down
  next => cases h

theorem Consistent.startRecovery {budgetMs : Nat} (consistent : w.Consistent)
    (h : w.d.startRecovery budgetMs ms = .ok d') : Consistent ⟨d', w.down⟩ := by
  unfold Deployment.startRecovery at h
  split at h
  next atMs failed none =>
    have down := consistent.down
    rw [applicationMayBeDown, failed, none] at down
    cases h
    have cutover : w.d.cutover.isFailed = true := by rw [failed]; rfl
    refine ⟨fun _ => cutover, ?_, consistent.interruption⟩
    rw [applicationMayBeDown, failed]
    exact down
  next => cases h

theorem Consistent.finishRecovery {outcome : RecoveryOutcome} (consistent : w.Consistent)
    (h : w.d.finishRecovery outcome ms = .ok d') : Consistent ⟨d', w.down && !outcome.serviceRestored⟩ := by
  unfold Deployment.finishRecovery at h
  split at h
  next r found =>
    split at h
    next moves =>
      have failed : w.d.cutover.isFailed = true := consistent.recovery (by rw [found]; rfl)
      -- The attempt was under way, so nothing was restored before.
      have down : w.down = true := by
        have before := consistent.down
        unfold applicationMayBeDown at before
        cases cutover : w.d.cutover with
        | failed atMs =>
          rw [cutover, found] at before
          simpa [moves.1, RecoveryOutcome.serviceRestored] using before.symm
        | notStarted | notRequired | begun _ | confirmed _ => rw [cutover] at failed; cases failed
      cases h
      cases restored : outcome.serviceRestored with
      | true =>
        refine ⟨fun _ => failed, ?_, ?_⟩
        · rw [down]
          cases cutover : w.d.cutover with
          | failed atMs => simp [applicationMayBeDown, Deployment.endInterruption, restored]
          | notStarted | notRequired | begun _ | confirmed _ => rw [cutover] at failed; cases failed
        · rw [down]
          show ((w.d.interruption.map _).any _) = false
          cases w.d.interruption <;> rfl
      | false =>
        refine ⟨fun _ => failed, ?_, ?_⟩
        · rw [down]
          cases cutover : w.d.cutover with
          | failed atMs => simp [applicationMayBeDown, restored]
          | notStarted | notRequired | begun _ | confirmed _ => rw [cutover] at failed; cases failed
        · rw [down]
          exact consistent.interruption.trans down
    next => cases h
  next => cases h

theorem Consistent.beginExplicitRecovery {budgetMs : Nat} (consistent : w.Consistent)
    (h : w.d.beginExplicitRecovery budgetMs ms = .ok d') : Consistent ⟨d', w.down⟩ := by
  unfold Deployment.beginExplicitRecovery at h
  split at h
  next can =>
    cases failed : w.d.failCutover ms with
    | error e => rw [failed] at h; cases h
    | ok d₁ =>
      rw [failed] at h
      have first : Consistent ⟨d₁, w.down⟩ := consistent.failCutover failed
      have step : ∀ r, Consistent ⟨{ d₁ with steps := d₁.steps.set .recovery r }, w.down⟩ := fun _ =>
        first.untouched ⟨rfl, rfl, rfl, fun _ => rfl⟩
      exact (step _).startRecovery h
  next => cases h

theorem Consistent.restarted (consistent : w.Consistent) (h : Restarted w.d d') : Consistent ⟨d', w.down⟩ := by
  rcases h.recovery with same | ⟨ms, closed⟩
  · exact consistent.untouched ⟨h.cutover, same, h.interruption, h.status⟩
  · refine ⟨fun some => ?_, ?_, by rw [h.interruption]; exact consistent.interruption⟩
    · have some : d'.recovery.isSome = true := some
      rw [closed, Option.isSome_map] at some
      rw [h.cutover]
      exact consistent.recovery some
    · have before := consistent.down
      unfold applicationMayBeDown at before ⊢
      rw [h.cutover, closed]
      cases found : w.d.recovery with
      | none => rw [found] at before; exact before
      | some r =>
        rw [found] at before
        simpa only [Option.map_some, Option.any_some, serviceRestored_closedRecovery] using before

/-- Step lemma. -/
theorem Consistent.step (consistent : w.Consistent) (op : StateOp) : (w.step op).Consistent := by
  unfold Watched.step
  split
  next d' accepted =>
    cases op with
    | transition target nowMs => exact consistent.untouched (transition_untouched accepted)
    | startStep s nowMs => exact consistent.untouched (startStep_ok accepted).2.untouched
    | finishStep s ok note nowMs => exact consistent.untouched (finishStep_ok accepted).2.untouched
    | beginCutover nowMs => exact consistent.beginCutover accepted
    | cutoverNotRequired => exact consistent.cutoverNotRequired accepted
    | confirmCutover nowMs => exact consistent.confirmCutover accepted
    | failCutover nowMs => exact consistent.failCutover accepted
    | startRecovery budgetMs nowMs => exact consistent.startRecovery accepted
    | beginExplicitRecovery budgetMs nowMs => exact consistent.beginExplicitRecovery accepted
    | finishRecovery outcome nowMs => exact consistent.finishRecovery accepted
    | recoverOnStart nowMs =>
      cases accepted
      exact consistent.restarted recoverDeployment_restarted
  next => exact consistent

/-- Run lemma. -/
theorem Consistent.run (consistent : w.Consistent) (ops : List StateOp) : (w.run ops).Consistent := by
  induction ops generalizing w with
  | nil => exact consistent
  | cons op ops ih => exact ih (consistent.step op)

/-! ## The end -/

/-- A deployment that ended keeps its status. -/
theorem status_step (op : StateOp) (ended : w.d.status.isTerminal = true) : (w.step op).d.status = w.d.status := by
  unfold Watched.step
  split
  next d' accepted =>
    cases op with
    | transition target nowMs => exact (transition_untouched accepted).status ended
    | startStep s nowMs => exact (startStep_ok accepted).2.status_eq
    | finishStep s ok note nowMs => exact (finishStep_ok accepted).2.status_eq
    | beginCutover nowMs => exact (beginCutover_ok accepted).2.1.status_eq
    | cutoverNotRequired => exact (cutoverNotRequired_ok accepted).2.1.status_eq
    | confirmCutover nowMs => exact (confirmCutover_ok accepted).1.status_eq
    | failCutover nowMs => exact (failCutover_ok accepted).2.1.status_eq
    | startRecovery budgetMs nowMs => exact (startRecovery_ok accepted).2.1.status_eq
    | beginExplicitRecovery budgetMs nowMs => exact (beginExplicitRecovery_ok accepted).2.2.1
    | finishRecovery outcome nowMs => exact (finishRecovery_ok accepted).1.status_eq
    | recoverOnStart nowMs =>
      cases accepted
      exact recoverDeployment_restarted.status ended
  next => rfl

theorem status_run (ops : List StateOp) (ended : w.d.status.isTerminal = true) :
    (w.run ops).d.status = w.d.status := by
  induction ops generalizing w with
  | nil => rfl
  | cons op ops ih =>
    have first := status_step op ended
    exact (ih (w := w.step op) (by rw [first]; exact ended)).trans first

end Watched

/-! ## A second start -/

section

variable {d : Deployment} {ms ms' : Nat}

/-- Nothing is left for a start to close. -/
structure Closed (d : Deployment) : Prop where
  recovery : ∀ r, d.recovery = some r → r.outcome ≠ .inProgress
  step : (d.step .recovery).status ≠ .running

theorem closeUnfinishedRecovery_closed : Closed (closeUnfinishedRecovery d ms) := by
  constructor
  · intro r found
    obtain ⟨r₀, _, rfl⟩ := Option.map_eq_some_iff.mp found
    split
    · exact fun same => by cases same
    next other => exact other
  · show ((closeUnfinishedRecovery d ms).steps.record .recovery).status ≠ .running
    simp only [closeUnfinishedRecovery, StepTable.record_map, true_and]
    split
    · exact fun same => by cases same
    next other => exact other

theorem Closed.close (closed : Closed d) : closeUnfinishedRecovery d ms = d := by
  have recovery : d.recovery.map (fun r =>
      if r.outcome = .inProgress then { r with outcome := .restoreFailed .interrupted, finishedMs := some ms }
      else r) = d.recovery := by
    cases found : d.recovery with
    | none => rfl
    | some r => rw [Option.map_some, if_neg (closed.recovery r found)]
  have steps : (d.steps.map fun s r =>
      if s = .recovery ∧ r.status = .running then { r with status := .interrupted, finishedMs := some ms }
      else r) = d.steps := by
    refine StepTable.ext fun s => ?_
    rw [StepTable.record_map]
    refine if_neg fun both => ?_
    obtain ⟨rfl, running⟩ := both
    exact closed.step running
  unfold closeUnfinishedRecovery
  rw [recovery, steps]

/-- After a start, a deployment ended; if it was interrupted, nothing of it is left to close. -/
theorem recoverDeployment_ended (d : Deployment) (ms : Nat) :
    (recoverDeployment d ms).1.status.isTerminal = true ∧
      ((recoverDeployment d ms).1.status = .interrupted → Closed (recoverDeployment d ms).1) := by
  unfold recoverDeployment
  split
  next ended =>
    split
    next => exact ⟨ended, fun _ => closeUnfinishedRecovery_closed⟩
    next other => exact ⟨ended, fun same => absurd same other⟩
  next running =>
    dsimp only
    have closed : Closed (closeUnfinishedRecovery (interruptRunningSteps d ms) ms) := closeUnfinishedRecovery_closed
    split
    next d' moved =>
      obtain ⟨_, moves⟩ := Deployment.transition_ok moved
      refine ⟨by rw [moves.status]; rfl, fun _ => ⟨fun r found => ?_, fun now => ?_⟩⟩
      · exact closed.recovery r (moves.recovery.symm.trans found)
      · exact closed.step (Deployment.running_of_transition moved now)
    next e refused =>
      have moves := Deployment.transition_error refused
      have status : (closeUnfinishedRecovery (interruptRunningSteps d ms) ms).status = d.status := rfl
      rw [status] at moves
      cases current : d.status with
      | requested | queued | running => rw [current] at moves; cases moves
      | succeeded | failed | cancelled | interrupted | superseded => rw [current] at running; exact absurd rfl running

theorem recoverDeployment_again :
    recoverDeployment (recoverDeployment d ms).1 ms' = ((recoverDeployment d ms).1, false) := by
  obtain ⟨ended, closed⟩ := recoverDeployment_ended d ms
  generalize (recoverDeployment d ms).1 = d' at ended closed ⊢
  unfold recoverDeployment
  rw [if_pos ended]
  split
  next interrupted => rw [(closed interrupted).close]
  next => rfl

/-- A second start changes nothing, and has nothing to report. -/
theorem recoverOnStart_again (ds : List Deployment) (ms ms' : Nat) :
    recoverOnStart (recoverOnStart ds ms).1 ms' = ((recoverOnStart ds ms).1, ⟨[], []⟩) := by
  induction ds with
  | nil => rfl
  | cons d ds ih =>
    have first : (recoverOnStart (d :: ds) ms).1 = (recoverDeployment d ms).1 :: (recoverOnStart ds ms).1 := rfl
    rw [first, recoverOnStart, recoverDeployment_again, ih]
    rfl

end

/-- **The state machine of deployments.** After any calls on a new deployment, in any order, with refused
ones changing nothing: a recovery is present only if the cutover failed; the application may be down exactly
while the interruption that a begun cutover opened was neither confirmed nor restored, which is also what the
recorded interruption says; a status that ended the deployment never changes again; and a second start
changes nothing that the first one left. -/
theorem state_machine (id : DeploymentId) (app : ApplicationId) (trigger : Trigger) (createdMs : Nat)
    (ops : List StateOp) :
    let w := (Watched.new id app trigger createdMs).run ops
    (w.d.recovery.isSome = true → w.d.cutover.isFailed = true) ∧
      (w.d.applicationMayBeDown = w.down ∧ (w.d.interruption.any fun i => i.endedMs.isNone) = w.down) ∧
      (w.d.status.isTerminal = true → ∀ more, (w.run more).d.status = w.d.status) ∧
      ∀ earlier later ms ms',
        recoverOnStart (recoverOnStart (earlier ++ w.d :: later) ms).1 ms' =
          ((recoverOnStart (earlier ++ w.d :: later) ms).1, ⟨[], []⟩) := by
  intro w
  have consistent : w.Consistent := Watched.consistent_new.run ops
  refine ⟨consistent.recovery, ⟨consistent.down, consistent.interruption⟩, fun ended more => ?_, ?_⟩
  · exact Watched.status_run more ended
  · exact fun earlier later ms ms' => recoverOnStart_again _ ms ms'

end Harpoon.Deploy
