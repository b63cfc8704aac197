import Harpoon.Deploy.State

/-!
# What a transition changes

One lemma for each operation of the state machine: what an accepted request found, and what it left.
The converse, that a request which found this is accepted, is what shows that the engine is never
refused one.
-/

namespace Harpoon.Deploy

namespace CutoverState

/-- A healthy release may have been stopped. -/
def hasBegun : CutoverState → Bool
  | .begun _ | .confirmed _ | .failed _ => true
  | .notStarted | .notRequired => false

theorem hasBegun_of_isBegun {c : CutoverState} (h : c.isBegun = true) : c.hasBegun = true := by
  cases c with
  | begun _ => rfl
  | notStarted | notRequired | confirmed _ | failed _ => cases h

end CutoverState

namespace Deployment

variable {d d' : Deployment} {s : Step} {ms : Nat}

/-- A deployment that was just queued. -/
structure Fresh (d : Deployment) : Prop where
  status : d.status = .queued
  pending : ∀ s, (d.step s).status = .pending
  cutover : d.cutover = .notStarted
  recovery : d.recovery = none

/-! ## Status -/

/-- What a move to the status `to` leaves. -/
structure StatusMoved (d : Deployment) (target : DeploymentStatus) (d' : Deployment) : Prop where
  status : d'.status = target
  id : d'.id = d.id
  cutover : d'.cutover = d.cutover
  recovery : d'.recovery = d.recovery
  steps : target.isTerminal = false → d'.steps = d.steps

theorem transition_ok {target : DeploymentStatus} (h : d.transition target ms = .ok d') :
    d.status.canTransitionTo target = true ∧ StatusMoved d target d' := by
  unfold transition at h
  split at h
  next allowed =>
    refine ⟨allowed, ?_⟩
    cases h
    cases target <;> exact ⟨rfl, rfl, rfl, rfl, fun open_ => by first | rfl | cases open_⟩
  next => cases h

theorem transition_error {target : DeploymentStatus} {e : TransitionError}
    (h : d.transition target ms = .error e) : d.status.canTransitionTo target = false := by
  unfold transition at h
  split at h
  · cases h
  next refused => exact Bool.eq_false_iff.mpr refused

/-! ## Steps -/

/-- The record of one step moved to the status `to`; nothing else changed. -/
structure StepMoved (d : Deployment) (s : Step) (target : StepStatus) (d' : Deployment) : Prop where
  moved : (d'.step s).status = target
  others : ∀ x, x ≠ s → d'.step x = d.step x
  rest : d' = { d with steps := d'.steps }

variable {target : StepStatus}

theorem StepMoved.id_eq (h : StepMoved d s target d') : d'.id = d.id := congrArg (·.id) h.rest

theorem StepMoved.status_eq (h : StepMoved d s target d') : d'.status = d.status := congrArg (·.status) h.rest

theorem StepMoved.cutover_eq (h : StepMoved d s target d') : d'.cutover = d.cutover := congrArg (·.cutover) h.rest

theorem StepMoved.recovery_eq (h : StepMoved d s target d') : d'.recovery = d.recovery := congrArg (·.recovery) h.rest

theorem StepMoved.pinned_eq (h : StepMoved d s target d') : d'.pinned = d.pinned := congrArg (·.pinned) h.rest

theorem StepMoved.replaces_eq (h : StepMoved d s target d') : d'.replaces = d.replaces := congrArg (·.replaces) h.rest

theorem stepMoved_set {r : StepRecord} (status : r.status = target) :
    StepMoved d s target { d with steps := d.steps.set s r } := by
  refine ⟨?_, fun x other => ?_, rfl⟩
  · simpa [step] using status
  · simp [step, other]

theorem startStep_ok (h : d.startStep s ms = .ok d') :
    (d.step s).status = .pending ∧ StepMoved d s .running d' := by
  unfold startStep at h
  dsimp only at h
  split at h
  next pending => cases h; exact ⟨pending, stepMoved_set rfl⟩
  next => cases h

theorem startStep_error {e : TransitionError} (h : d.startStep s ms = .error e) :
    (d.step s).status ≠ .pending := by
  unfold startStep at h
  dsimp only at h
  split at h
  · cases h
  next refused => exact refused

theorem finishStep_ok {ok : Bool} {note : String} (h : d.finishStep s ok note ms = .ok d') :
    (d.step s).status = .running ∧ StepMoved d s (if ok then .succeeded else .failed) d' := by
  unfold finishStep at h
  dsimp only at h
  split at h
  next running => cases h; exact ⟨running, stepMoved_set rfl⟩
  next => cases h

theorem finishStep_error {ok : Bool} {note : String} {e : TransitionError}
    (h : d.finishStep s ok note ms = .error e) : (d.step s).status ≠ .running := by
  unfold finishStep at h
  dsimp only at h
  split at h
  · cases h
  next refused => exact refused

/-! ## Cutover and recovery -/

/-- Everything but the cutover, the recovery and the interruption is as it was. -/
def SameButCutover (d d' : Deployment) : Prop :=
  d' = { d with cutover := d'.cutover, recovery := d'.recovery, interruption := d'.interruption }

theorem SameButCutover.id_eq (h : SameButCutover d d') : d'.id = d.id := congrArg (·.id) h

theorem SameButCutover.status_eq (h : SameButCutover d d') : d'.status = d.status := congrArg (·.status) h

theorem SameButCutover.pinned_eq (h : SameButCutover d d') : d'.pinned = d.pinned := congrArg (·.pinned) h

theorem SameButCutover.replaces_eq (h : SameButCutover d d') : d'.replaces = d.replaces := congrArg (·.replaces) h

theorem SameButCutover.step_eq (h : SameButCutover d d') (s : Step) : d'.step s = d.step s :=
  congrArg (fun d => d.step s) h

theorem beginCutover_ok (h : d.beginCutover ms = .ok d') :
    d.cutover = .notStarted ∧ SameButCutover d d' ∧ d'.cutover.isBegun = true ∧
      d'.recovery = d.recovery := by
  unfold beginCutover at h
  split at h
  next untouched => cases h; exact ⟨untouched, rfl, rfl, rfl⟩
  next => cases h

theorem beginCutover_error {e : TransitionError} (h : d.beginCutover ms = .error e) :
    d.cutover ≠ .notStarted := by
  intro untouched
  rw [beginCutover, untouched] at h
  cases h

theorem cutoverNotRequired_ok (h : d.cutoverNotRequired = .ok d') :
    d.cutover = .notStarted ∧ SameButCutover d d' ∧ d'.recovery = d.recovery := by
  unfold cutoverNotRequired at h
  split at h
  next untouched => cases h; exact ⟨untouched, rfl, rfl⟩
  next => cases h

theorem cutoverNotRequired_error {e : TransitionError} (h : d.cutoverNotRequired = .error e) :
    d.cutover ≠ .notStarted := by
  intro untouched
  rw [cutoverNotRequired, untouched] at h
  cases h

theorem confirmCutover_ok (h : d.confirmCutover ms = .ok d') :
    SameButCutover d d' ∧ d'.cutover.hasBegun = true ∧ d'.recovery = d.recovery := by
  unfold confirmCutover at h
  split at h
  · cases h; exact ⟨rfl, rfl, rfl⟩
  · cases h

theorem confirmCutover_error {e : TransitionError} (h : d.confirmCutover ms = .error e) :
    d.cutover.isBegun = false := by
  unfold confirmCutover at h
  split at h
  · cases h
  next other => cases c : d.cutover with
    | begun atMs => exact absurd c (other atMs)
    | notStarted | notRequired | confirmed _ | failed _ => rfl

theorem failCutover_ok (h : d.failCutover ms = .ok d') :
    d.cutover.isBegun = true ∧ SameButCutover d d' ∧ d'.cutover = .failed ms ∧
      d'.recovery = d.recovery := by
  unfold failCutover at h
  split at h
  next begun => cases h; exact ⟨by rw [begun]; rfl, rfl, rfl, rfl⟩
  · cases h

theorem failCutover_error {e : TransitionError} (h : d.failCutover ms = .error e) :
    d.cutover.isBegun = false := by
  unfold failCutover at h
  split at h
  · cases h
  next other => cases c : d.cutover with
    | begun atMs => exact absurd c (other atMs)
    | notStarted | notRequired | confirmed _ | failed _ => rfl

/-- A restoration is in progress. -/
def Recovering (d : Deployment) : Prop := ∃ r, d.recovery = some r ∧ r.outcome = .inProgress

theorem Recovering.isSome (h : d.Recovering) : d.recovery.isSome = true := by
  obtain ⟨r, recovery, _⟩ := h
  rw [recovery]; rfl

theorem startRecovery_ok {budgetMs : Nat} (h : d.startRecovery budgetMs ms = .ok d') :
    d.recovery = none ∧ SameButCutover d d' ∧ d'.cutover = d.cutover ∧ d'.Recovering := by
  unfold startRecovery at h
  split at h
  next none => cases h; exact ⟨none, rfl, rfl, _, rfl, rfl⟩
  · cases h

theorem startRecovery_error {budgetMs : Nat} {e : TransitionError}
    (h : d.startRecovery budgetMs ms = .error e) (failed : d.cutover.isFailed = true) :
    d.recovery ≠ none := by
  intro none
  cases c : d.cutover with
  | failed atMs => rw [startRecovery, c, none] at h; cases h
  | notStarted | notRequired | begun _ | confirmed _ => rw [c] at failed; cases failed

theorem finishRecovery_ok {outcome : RecoveryOutcome} (h : d.finishRecovery outcome ms = .ok d') :
    SameButCutover d d' ∧ d'.cutover = d.cutover ∧ d'.recovery.isSome = true := by
  unfold finishRecovery at h
  split at h
  · split at h
    · cases h
      split <;> exact ⟨rfl, rfl, rfl⟩
    · cases h
  · cases h

theorem finishRecovery_error {outcome : RecoveryOutcome} {e : TransitionError}
    (h : d.finishRecovery outcome ms = .error e) (recovering : d.Recovering) : outcome = .inProgress := by
  obtain ⟨r, recovery, inProgress⟩ := recovering
  rw [finishRecovery, recovery] at h
  dsimp only at h
  split at h
  · cases h
  next refused =>
    by_cases same : outcome = .inProgress
    · exact same
    · exact absurd ⟨inProgress, same⟩ refused

theorem beginExplicitRecovery_ok {budgetMs : Nat}
    (h : d.beginExplicitRecovery budgetMs ms = .ok d') :
    d.recovery = none ∧ d'.id = d.id ∧ d'.status = d.status ∧ d'.cutover.hasBegun = true ∧
      d'.Recovering ∧ (d'.step .recovery).status = .running := by
  unfold beginExplicitRecovery at h
  split at h
  next can =>
    cases failed : d.failCutover ms with
    | error e => rw [failed] at h; cases h
    | ok d₁ =>
      rw [failed] at h
      obtain ⟨_, same₁, _, recovery₁⟩ := failCutover_ok failed
      obtain ⟨none, same, cutover, recovering⟩ := startRecovery_ok h
      refine ⟨recovery₁.symm.trans none, ?_, ?_, ?_, recovering, ?_⟩
      · rw [same, same₁]
      · rw [same, same₁]
      · rw [cutover]
        show d₁.cutover.hasBegun = true
        rw [(failCutover_ok failed).2.2.1]
        rfl
      · rw [same.step_eq]
        simp [step]
  next => cases h

end Deployment

end Harpoon.Deploy
