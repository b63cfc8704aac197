import Harpoon.Laws.Promises

/-!
# What startup makes of an interrupted run

A run may be cut short anywhere. What is left of it is the last snapshot that was stored, and the next
start marks it interrupted (`recoverOnStart`). Startup changes neither the cutover nor whether a
restoration was attempted, so what the protocol of the run put on disk before it stopped a release is
still there to be reported.
-/

namespace Harpoon.Deploy

open Interact

/-! ## One deployment -/

/-- A restoration brought a release back. -/
def Deployment.serviceRestored (d : Deployment) : Bool := d.recovery.any fun r => r.outcome.serviceRestored

/-- What startup keeps of a deployment. -/
structure Survives (d d' : Deployment) : Prop where
  id : d'.id = d.id
  cutover : d'.cutover = d.cutover
  recovery : d'.recovery.isSome = d.recovery.isSome
  restored : d'.serviceRestored = d.serviceRestored

section

variable {d d' d'' : Deployment} {nowMs : Nat}

theorem Survives.refl : Survives d d := ⟨rfl, rfl, rfl, rfl⟩

theorem Survives.trans (first : Survives d d') (second : Survives d' d'') : Survives d d'' :=
  ⟨second.id.trans first.id, second.cutover.trans first.cutover, second.recovery.trans first.recovery,
    second.restored.trans first.restored⟩

/-- A restoration that is closed as interrupted did not bring a release back before, and has not
now. -/
theorem survives_closeUnfinishedRecovery : Survives d (closeUnfinishedRecovery d nowMs) := by
  refine ⟨rfl, rfl, Option.isSome_map, ?_⟩
  unfold Deployment.serviceRestored closeUnfinishedRecovery
  cases d.recovery with
  | none => rfl
  | some r =>
    show RecoveryOutcome.serviceRestored (if _ then _ else _ : Recovery).outcome = _
    split
    next unfinished => rw [Option.any_some, unfinished]; rfl
    next => rfl

theorem survives_transition {target : DeploymentStatus} (moved : d.transition target nowMs = .ok d') :
    Survives d d' := by
  obtain ⟨_, moved⟩ := Deployment.transition_ok moved
  exact ⟨moved.id, moved.cutover, by rw [moved.recovery],
    by rw [Deployment.serviceRestored, moved.recovery]; rfl⟩

theorem survives_recoverDeployment : Survives d (recoverDeployment d nowMs).1 := by
  unfold recoverDeployment
  split
  · show Survives d (if _ then _ else _)
    split
    · exact survives_closeUnfinishedRecovery
    · exact .refl
  · have steps : Survives d (interruptRunningSteps d nowMs) := ⟨rfl, rfl, rfl, rfl⟩
    have closed : Survives d (closeUnfinishedRecovery (interruptRunningSteps d nowMs) nowMs) :=
      steps.trans survives_closeUnfinishedRecovery
    dsimp only
    split
    next moved => exact closed.trans (survives_transition moved)
    next => exact closed

/-- Startup marks exactly the deployments that are not terminal. -/
theorem recoverDeployment_marked : (recoverDeployment d nowMs).2 = !d.status.isTerminal := by
  unfold recoverDeployment
  split
  next terminal => rw [terminal]; rfl
  next open_ =>
    rw [Bool.eq_false_iff.mpr open_]
    dsimp only
    split <;> rfl

/-- The application may be down if a cutover began that was not confirmed, and no restoration brought
a release back. -/
theorem mayBeDown_of (begun : d.cutover.hasBegun = true) (unconfirmed : d.cutover.isConfirmed = false)
    (unrestored : d.serviceRestored = false) : d.applicationMayBeDown = true := by
  unfold Deployment.applicationMayBeDown
  cases cutover : d.cutover with
  | begun _ => rfl
  | failed _ => exact (congrArg (! ·) unrestored :)
  | confirmed _ => rw [cutover] at unconfirmed; cases unconfirmed
  | notStarted | notRequired => rw [cutover] at begun; cases begun

/-! ## All of them -/

theorem recoverOnStart_fst {ds : List Deployment} :
    (recoverOnStart ds nowMs).1 = ds.map fun d => (recoverDeployment d nowMs).1 := by
  induction ds with
  | nil => rfl
  | cons d ds ih => rw [List.map_cons, ← ih]; rfl

theorem incompleteCutovers_cons {ds : List Deployment} :
    (recoverOnStart (d :: ds) nowMs).2.incompleteCutovers =
      if (recoverDeployment d nowMs).2 = true ∧ (recoverDeployment d nowMs).1.applicationMayBeDown = true then
        (recoverDeployment d nowMs).1.id :: (recoverOnStart ds nowMs).2.incompleteCutovers
      else (recoverOnStart ds nowMs).2.incompleteCutovers := by
  simp only [recoverOnStart]
  generalize recoverDeployment d nowMs = left
  cases left.2 <;> simp

/-- A deployment that was open and whose application may be down is reported. -/
theorem mem_incompleteCutovers {ds : List Deployment} (mem : d ∈ ds) (open_ : d.status.isTerminal = false)
    (down : (recoverDeployment d nowMs).1.applicationMayBeDown = true) :
    (recoverDeployment d nowMs).1.id ∈ (recoverOnStart ds nowMs).2.incompleteCutovers := by
  induction ds with
  | nil => cases mem
  | cons x ds ih =>
    rw [incompleteCutovers_cons]
    rcases List.mem_cons.mp mem with rfl | mem
    · rw [if_pos ⟨recoverDeployment_marked.trans (by rw [open_]; rfl), down⟩]
      exact List.mem_cons_self
    · split
      · exact List.mem_cons_of_mem _ (ih mem)
      · exact ih mem

end

/-! ## A run that was cut short -/

section

variable {cfg : RunConfig} {previous : Option PreviousRelease} {d₀ : Deployment}

/-- Since a release was stopped, the snapshot on disk says that the cutover began. -/
def StopOnDisk (d₀ : Deployment) (t : Trail) : Prop :=
  made Call.isStopCurrent t.calls = true →
    ∃ d, t.stored = some d ∧ d.id = d₀.id ∧ d.cutover.hasBegun = true

/-- Step lemma. -/
theorem StopOnDisk.step {t : Trail} {e : Event EngineSig} (onDisk : StopOnDisk d₀ t)
    (allowed : Rule cfg previous d₀ t e.op) : StopOnDisk d₀ (t.see e) := by
  obtain ⟨op, answer⟩ := e
  cases op with
  | persist d =>
    have kept : Kept cfg previous d₀ d t.calls := allowed
    cases answer with
    | acknowledged => exact fun stopped => ⟨d, rfl, kept.id, kept.stopped stopped⟩
    | failed _ stored =>
      cases stored with
      | true => exact fun stopped => ⟨d, rfl, kept.id, kept.stopped stopped⟩
      | false => exact onDisk
  | call c budgetMs =>
    intro stopped
    rcases Bool.or_eq_true_iff.mp stopped with isStop | stopped
    · cases c with
      | stopCurrent prev =>
        obtain ⟨_, d, _, stored, ahead⟩ := allowed
        exact ⟨d, stored, ahead.id, CutoverState.hasBegun_of_isBegun ahead.begun⟩
      | _ => cases isStop
    · exact onDisk stopped
  | record r =>
    cases answer with
    | acknowledged => exact onDisk
    | failed _ _ =>
      show StopOnDisk d₀ (if t.inCall then t else _)
      split <;> exact onDisk
  | nowMs | result _ | acceptsSimulatedEvidence =>
    exact fun stopped => onDisk ((Trail.made_see _).symm.trans stopped)
  | _ => exact onDisk

/-- A run that stopped the previous release and put neither a confirmed cutover nor a restored service on
disk is not passed over: the next start says that its application may be down, and reports it if the
run had not ended. -/
theorem no_silent_downtime {d : Deployment} {ctx : Context} {h : History EngineSig}
    {q : Program EngineSig (Except EngineError Report × Run)} {earlier later : List Deployment} {nowMs : Nat}
    (follows : Program.Follows (runDeploymentConfirmed d ctx cfg) h q)
    (stopped : (callsOf h).any Call.isStopCurrent = true)
    (unserved : ∀ d ∈ storedSnapshots h, d.cutover.isConfirmed = false ∧ d.serviceRestored = false) :
    ∃ last, (storedSnapshots h).getLast? = some last ∧ last.id = d.id ∧
      ∃ left, (recoverOnStart (earlier ++ last :: later) nowMs).1[earlier.length]? = some left ∧
        left.id = d.id ∧ left.applicationMayBeDown = true ∧
        (last.status.isTerminal = false →
          left.id ∈ (recoverOnStart (earlier ++ last :: later) nowMs).2.incompleteCutovers) := by
  have onDisk : StopOnDisk d (Trail.of h) :=
    Lawful.invariant (fun _ _ => StopOnDisk.step) (fun h => (nomatch h)) (run_lawful follows)
  obtain ⟨last, stored, same, begun⟩ := onDisk (Trail.made_of.trans stopped)
  rw [Trail.of_stored] at stored
  obtain ⟨unconfirmed, unrestored⟩ := unserved last (List.mem_of_getLast? stored)
  have survives : Survives last (recoverDeployment last nowMs).1 := survives_recoverDeployment
  have down : (recoverDeployment last nowMs).1.applicationMayBeDown = true := by
    refine mayBeDown_of ?_ ?_ (survives.restored.trans unrestored)
    · rw [survives.cutover]; exact begun
    · rw [survives.cutover]; exact unconfirmed
  refine ⟨last, stored, same, (recoverDeployment last nowMs).1, ?_, survives.id.trans same, down,
    fun open_ => mem_incompleteCutovers (List.mem_append_right _ List.mem_cons_self) open_ down⟩
  rw [recoverOnStart_fst, List.getElem?_map, List.getElem?_append_right (Nat.le_refl _), Nat.sub_self]
  rfl

end

namespace Replaced

/-- The run dies while the previous release is being stopped. -/
def cutRun : History EngineSig := (played .acknowledged fun _ => false).1.take 44

end Replaced

theorem no_silent_downtime_replaced :
    ∃ last, (storedSnapshots Replaced.cutRun).getLast? = some last ∧ last.id = Replaced.queued.id ∧
      ∃ left, (recoverOnStart ([] ++ last :: [Replaced.queued]) 0).1[([] : List Deployment).length]? = some left ∧
        left.id = Replaced.queued.id ∧ left.applicationMayBeDown = true ∧
        (last.status.isTerminal = false →
          left.id ∈ (recoverOnStart ([] ++ last :: [Replaced.queued]) 0).2.incompleteCutovers) := by
  obtain ⟨q, follows⟩ := (Replaced.played_follows .acknowledged fun _ => false).take 44
  have stopped : (callsOf Replaced.cutRun).any Call.isStopCurrent = true := by decide +kernel
  have none_served : ((storedSnapshots Replaced.cutRun).all fun d =>
      !d.cutover.isConfirmed && !d.serviceRestored) = true := by decide +kernel
  refine no_silent_downtime follows stopped fun d mem => ?_
  simpa using List.all_eq_true.mp none_served d mem

end Harpoon.Deploy
