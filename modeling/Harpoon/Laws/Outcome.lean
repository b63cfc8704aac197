import Harpoon.Laws.Cutover

/-!
# The whole run

A run goes through its stages to `Ended`: the deployment is terminal, the journal has acknowledged it,
and if it succeeded then every call was earned. The cleanup that follows changes none of this.
-/

namespace Harpoon.Deploy

open Interact Process

section

variable {cfg : RunConfig} {previous : Option PreviousRelease} {d₀ : Deployment} {r : Run} {t t' : Trail}

/-- What the new release runs with is pinned; nothing else changes. -/
theorem repin_runs {post : Unit → Run → Trail → Prop} (kept : Kept cfg previous d₀ r.d t.calls)
    (h : ∀ r' t', r'.d = { r.d with pinned := r'.d.pinned } → t'.calls = t.calls → post () r' t') :
    Runs cfg previous d₀ Run.repin post r t := by
  refine meets_bind.mpr (meets_ask.mpr ⟨trivial, fun pinned => ?_⟩)
  cases pinned with
  | none => exact h r _ rfl rfl
  | some actual =>
    refine meets_bind.mpr (meets_get.mpr ?_)
    split
    · refine meets_bind.mpr (modify_runs fun r₁ d₁ => ?_)
      have kept₁ : Kept cfg previous d₀ r₁.d t.calls := d₁ ▸ kept.congr rfl rfl rfl fun h => h
      exact save_runs kept₁ fun t₂ saved => h r₁ t₂ (by rw [d₁]) saved.calls
    · exact h r _ rfl rfl

/-- The calls before the cutover, the last one first. -/
def preparation : List Call := [.preliminaryCheck, .build, .prepareSource]

/-- The steps before the cutover. -/
def prepared : List Step := [.preliminaryCheck, .build, .source]

/-- What was earned before, and one call more. -/
theorem Called.earned {c : Call} {budget : Nat} {record : CallRecord}
    (called : Called c budget t t' record) (before : ∀ c ∈ t.calls, c.Earned cfg)
    (earned : record.Earned cfg) : ∀ c ∈ t'.calls, c.Earned cfg := by
  intro c' mem
  rcases List.mem_cons.mp (called.calls ▸ mem) with rfl | mem
  · exact earned
  · exact before c' mem

theorem Called.made {c : Call} {budget : Nat} {record : CallRecord} {calls : List Call}
    (called : Called c budget t t' record) (before : t.calls.map CallRecord.call = calls) :
    t'.calls.map CallRecord.call = c :: calls := by
  rw [called.calls, List.map_cons, called.call, before]

/-- A call of the cutover gives no evidence: it is earned when it returns in time. -/
theorem Called.earned_silent {c : Call} {record : CallRecord} {v : c.Ret}
    (called : Called c (cfg.budgetFor c) t t' record) (returned : record.returned = some ⟨c, .ok v⟩)
    (within : record.Within) (silent : c ≠ .preliminaryCheck ∧ c ≠ .finalCheck) : record.Earned cfg :=
  earned_of_silent called.call called.budget returned within silent

/-! ## The final check -/

variable (cfg previous d₀) in
/-- The new release was started, and the final check is on record. -/
structure Started (d : Deployment) (t : Trail) : Prop where
  kept : Kept cfg previous d₀ d t.calls
  status : d.status = .running
  checking : (d.step .finalCheck).status = .running
  made : Call.finalCheck :: t.calls.map CallRecord.call = successCalls previous
  earned : ∀ c ∈ t.calls, c.Earned cfg

/-- A final check that passes is the last call that success needs; one that fails leaves a release
that was started in time. -/
theorem checkStarted_runs {post : Except (String × Bool) String → Run → Trail → Prop}
    (started : Started cfg previous d₀ r.d t)
    (ok : ∀ note r' t', r'.d = r.d → Kept cfg previous d₀ r'.d t'.calls → Won cfg previous t'.calls →
      post (.ok note) r' t')
    (error : ∀ m r' t', r'.d = r.d → Kept cfg previous d₀ r'.d t'.calls →
      (∀ c ∈ t'.calls, c.call = .startNew → c.InTime) → post (.error m) r' t') :
    Runs cfg previous d₀ (Run.finalCheck cfg) post r t := by
  refine finalCheck_runs ⟨started.kept, trivial, fun h => (nomatch h), fun h => (nomatch h),
    not_succeeded_of_running started.status⟩ ?_ ?_
  · intro note r' t' check same called kept earned
    refine ok note r' t' same kept ⟨?_, called.earned started.earned earned⟩
    rw [called.made rfl]; exact started.made
  · intro m r' t' check same called kept
    refine error m r' t' same kept fun c mem isStart => ?_
    rcases List.mem_cons.mp (called.calls ▸ mem) with rfl | mem
    · rw [called.call] at isStart; cases isStart
    · exact (started.earned c mem).inTime

/-! ## A first deployment -/

/-- The final check of a first deployment, and how it ends. -/
theorem endFirst_runs (started : Started cfg none d₀ r.d t) :
    Runs cfg none d₀ (do
      let checked ← Run.finalCheck cfg
      let at_ ← now
      match checked with
      | .ok note =>
        Run.change (·.finishStep .finalCheck true note at_)
        Run.succeed
      | .error (message, timedOut) =>
        Run.change (·.finishStep .finalCheck false message at_)
        Run.setFailure .finalCheck .finalCheck message timedOut
        Run.stopFailedNewRelease cfg
        let at_ ← now
        Run.change (·.transition .failed at_)
        Run.save) (fun _ => Ended cfg none d₀) r t := by
  refine meets_bind.mpr (checkStarted_runs started ?_ ?_)
  · intro note r₁ t₁ d₁ kept₁ won
    refine meets_bind.mpr (now_runs kept₁ fun ms t₂ same => meets_bind.mpr ?_)
    refine finishStep_runs (kept₁.of_calls same.calls) (d₁ ▸ started.checking) fun r₂ moved kept₂ => ?_
    exact succeed_runs kept₂ (moved.status_eq.trans (d₁ ▸ started.status)) (same.calls ▸ won)
  · intro m r₁ t₁ d₁ kept₁ inTime
    refine meets_bind.mpr (now_runs kept₁ fun ms t₂ same => meets_bind.mpr ?_)
    refine finishStep_runs (kept₁.of_calls same.calls) (d₁ ▸ started.checking) fun r₂ moved kept₂ => ?_
    refine meets_bind.mpr (modify_runs fun r₃ d₃ => meets_bind.mpr ?_)
    have kept₃ : Kept cfg none d₀ r₃.d t₂.calls := d₃ ▸ kept₂.congr rfl rfl rfl fun h => h
    have status₃ : r₃.d.status = .running := by
      rw [d₃]; exact moved.status_eq.trans (d₁ ▸ started.status)
    rw [← same.calls] at inTime
    refine stopFailedNewRelease_runs ⟨kept₃, inTime, fun h => (nomatch h), fun h => (nomatch h),
      not_succeeded_of_running status₃⟩ fun r₄ t₄ stop d₄ _ kept₄ => ?_
    refine meets_bind.mpr (now_runs kept₄ fun ms t₅ same₅ => ?_)
    exact end_runs (kept₄.of_calls same₅.calls) (d₄ ▸ status₃) rfl (fun h => (nomatch h))
      fun h => (nomatch h)

/-- The run of a first deployment, from its plan on. -/
theorem firstDeployment_runs (before : Before cfg none d₀ prepared preparation r.d t) :
    Runs cfg none d₀ (Run.firstDeployment cfg) (fun _ => Ended cfg none d₀) r t := by
  refine meets_bind.mpr ((planAndPin_runs before (by decide)).imp fun go r₁ t₁ goes => ?_)
  cases go with
  | false => exact goes
  | true =>
    have planned : Before cfg none d₀ prepared (.planRelease :: preparation) r₁.d t₁ := goes
    refine meets_bind.mpr (change_runs planned.kept (fun r₂ skipped => ?_) fun fresh e refused =>
      Deployment.cutoverNotRequired_error refused (planned.cutover fresh))
    obtain ⟨untouched, same₂, recovery₂⟩ := Deployment.cutoverNotRequired_ok skipped
    have kept₂ : Kept cfg none d₀ r₂.d t₁.calls := by
      refine planned.kept.cutoverMoved same₂ (fun h => ?_) fun h => recovery₂.symm ▸ h
      rw [untouched] at h; cases h
    refine meets_bind.mpr (now_runs kept₂ fun ms t₂ same => meets_bind.mpr ?_)
    refine startStep_runs (kept₂.of_calls same.calls) (fun fresh => ?_) fun r₃ moved₃ kept₃ => ?_
    · rw [same₂.step_eq]; exact planned.pending fresh _ (by decide)
    have status₃ : r₃.d.status = .running := by
      rw [moved₃.status_eq, same₂.status_eq]; exact planned.status
    refine meets_bind.mpr (save_runs kept₃ fun t₃ saved => meets_bind.mpr ?_)
    have calls₃ : t₃.calls = t₁.calls := saved.calls.trans same.calls
    refine cutoverCall_runs ⟨kept₃.of_calls saved.calls, trivial, fun h => (nomatch h),
      fun h => (nomatch h), not_succeeded_of_running status₃⟩ ?_ ?_
    · intro r₄ t₄ start v d₄ called kept₄ returned within
      have startEarned : start.Earned cfg :=
        called.earned_silent returned within ⟨fun h => (nomatch h), fun h => (nomatch h)⟩
      refine meets_bind.mpr (now_runs kept₄ fun ms₅ t₅ same₅ => meets_bind.mpr ?_)
      refine finishStep_runs (kept₄.of_calls same₅.calls) (d₄ ▸ moved₃.moved) fun r₅ moved₅ kept₅ => ?_
      refine meets_bind.mpr (startStep_runs kept₅ (fun fresh => ?_) fun r₆ moved₆ kept₆ => ?_)
      · rw [moved₅.others _ (by decide), d₄, moved₃.others _ (by decide), same₂.step_eq]
        exact planned.pending fresh _ (by decide)
      refine meets_bind.mpr (repin_runs kept₆ fun r₇ t₇ d₇ calls₇ => ?_)
      have kept₇ : Kept cfg none d₀ r₇.d t₇.calls := by
        rw [d₇]; exact (kept₆.of_calls calls₇).congr rfl rfl rfl fun h => h
      refine meets_bind.mpr (save_runs kept₇ fun t₈ saved₈ => ?_)
      have calls₈ : t₈.calls = t₄.calls := saved₈.calls.trans (calls₇.trans same₅.calls)
      refine endFirst_runs ⟨kept₇.of_calls saved₈.calls, ?_, ?_, ?_, ?_⟩
      · rw [d₇]; exact moved₆.status_eq.trans (moved₅.status_eq.trans (d₄ ▸ status₃))
      · rw [d₇]; exact moved₆.moved
      · rw [calls₈, called.made (calls₃ ▸ planned.made)]; rfl
      · rw [calls₈]; exact called.earned (calls₃ ▸ planned.earned) startEarned
    · intro m r₄ t₄ start d₄ called kept₄ late
      refine meets_bind.mpr (now_runs kept₄ fun ms₅ t₅ same₅ => meets_bind.mpr ?_)
      refine finishStep_runs (kept₄.of_calls same₅.calls) (d₄ ▸ moved₃.moved) fun r₅ moved₅ kept₅ => ?_
      exact endFailed_runs kept₅ (moved₅.status_eq.trans (d₄ ▸ status₃))

/-! ## A replacement -/

variable {prev : PreviousRelease}

variable (cfg d₀ prev) in
/-- The cutover is on disk, and nothing was stopped yet. -/
structure Announced (d : Deployment) (t : Trail) : Prop where
  kept : Kept cfg (some prev) d₀ d t.calls
  acked : t.acked = some d
  stored : t.stored = some d
  kept_all : t.lost = false
  made : t.calls.map CallRecord.call = .planRelease :: preparation
  earned : ∀ c ∈ t.calls, c.Earned cfg
  ahead : WriteAhead d₀ prev t.calls d
  running : (d.step .cutover).status = .running
  pending : d₀.Fresh → ∀ s ∈ [Step.finalCheck, .recovery], (d.step s).status = .pending
  recovery : d₀.Fresh → d.recovery = none

/-- The write-ahead of the cutover, and then the rest of the code. -/
theorem announce_runs {α : Type} {rest : Unit → RunM α} {post : α → Run → Trail → Prop}
    (planned : Before cfg (some prev) d₀ prepared (.planRelease :: preparation) r.d t)
    (h : ∀ r' t', Announced cfg d₀ prev r'.d t' → Runs cfg (some prev) d₀ (rest ()) post r' t') :
    Runs cfg (some prev) d₀ (do
      let at_ ← now
      modify fun r => { r with d := { r.d with replaces := some prev.release } }
      Run.change (·.beginCutover at_)
      Run.change (·.startStep .cutover at_)
      Run.save >>= rest) post r t := by
  refine meets_bind.mpr (now_runs planned.kept fun ms t₁ same₁ => meets_bind.mpr ?_)
  refine modify_runs fun r₁ d₁ => meets_bind.mpr ?_
  have kept₁ : Kept cfg (some prev) d₀ r₁.d t₁.calls := by
    rw [d₁]; exact (planned.kept.of_calls same₁.calls).congr rfl rfl rfl fun h => h
  refine change_runs kept₁ (fun r₂ began => ?_) fun fresh e refused =>
    Deployment.beginCutover_error refused (by rw [d₁]; exact planned.cutover fresh)
  obtain ⟨_, same₂, begun₂, recovery₂⟩ := Deployment.beginCutover_ok began
  have kept₂ : Kept cfg (some prev) d₀ r₂.d t₁.calls :=
    kept₁.cutoverMoved same₂ (fun _ => CutoverState.hasBegun_of_isBegun begun₂) fun h => recovery₂.symm ▸ h
  have step₂ : ∀ s, r₂.d.step s = r.d.step s := fun s => by rw [same₂.step_eq, d₁]; rfl
  refine meets_bind.mpr (startStep_runs kept₂ (fun fresh => ?_) fun r₃ moved₃ kept₃ => ?_)
  · rw [step₂]; exact planned.pending fresh _ (by decide)
  refine meets_bind.mpr (save_runs kept₃ fun t₄ saved => ?_)
  have calls₄ : t₄.calls = t.calls := saved.calls.trans same₁.calls
  have step₃ : ∀ s, s ≠ .cutover → r₃.d.step s = r.d.step s := fun s other =>
    (moved₃.others s other).trans (step₂ s)
  refine h r₃ t₄ ⟨kept₃.of_calls saved.calls, saved.acked, saved.stored, ?_, ?_, ?_, ⟨kept₃.id, ?_, ?_,
    ?_, ?_, ?_⟩, moved₃.moved, fun fresh s mem => ?_, fun fresh => ?_⟩
  · exact saved.lost.trans (same₁.lost.trans planned.kept_all)
  · rw [calls₄]; exact planned.made
  · rw [calls₄]; exact planned.earned
  · rw [moved₃.status_eq, same₂.status_eq, d₁]; exact planned.status
  · intro s mem
    have earlier : s ∈ prepared ∧ s ≠ .cutover := by
      revert mem; cases s <;> decide
    rw [step₃ s earlier.2]
    exact planned.succeeded s earlier.1
  · rw [moved₃.cutover_eq]; exact begun₂
  · rw [moved₃.replaces_eq, same₂.replaces_eq, d₁]
  · intro c mem plan config returned
    rw [moved₃.pinned_eq, same₂.pinned_eq, d₁]
    exact planned.pinned c (calls₄ ▸ mem) plan config returned
  · have later : s ∉ prepared ∧ s ≠ .cutover := by
      revert mem; cases s <;> decide
    rw [step₃ s later.2]
    exact planned.pending fresh s later.1
  · rw [moved₃.recovery_eq, recovery₂, d₁]; exact planned.recovery fresh

/-- Up to the stop of the previous release the new one is not started. -/
theorem Announced.not_started {d : Deployment} {c : CallRecord} {budget : Nat} {record : CallRecord}
    (announced : Announced cfg d₀ prev d t) (called : Called (.stopCurrent prev) budget t t' record)
    (mem : c ∈ t'.calls) : c.call ≠ .startNew := by
  intro isStart
  rcases List.mem_cons.mp (called.calls ▸ mem) with rfl | mem
  · rw [called.call] at isStart; cases isStart
  · have earlier := List.mem_map_of_mem (f := CallRecord.call) mem
    rw [announced.made, isStart] at earlier
    revert earlier; decide

/-- The final check of a replacement, and how it ends. -/
theorem endReplacement_runs (started : Started cfg (some prev) d₀ r.d t)
    (begun : r.d.cutover.isBegun = true)
    (pending : d₀.Fresh → (r.d.step .recovery).status = .pending)
    (recovery : d₀.Fresh → r.d.recovery = none) :
    Runs cfg (some prev) d₀ (do
      match ← Run.finalCheck cfg with
      | .ok note =>
        let at_ ← now
        Run.change (·.finishStep .finalCheck true note at_)
        Run.change (·.confirmCutover at_)
        Run.succeed
      | .error (m, timedOut) =>
        Run.failAfterCutover cfg (some prev) .finalCheck .finalCheck m timedOut true
          cfg.policy.restoreBudgetMs) (fun _ => Ended cfg (some prev) d₀) r t := by
  refine meets_bind.mpr (checkStarted_runs started ?_ ?_)
  · intro note r₁ t₁ d₁ kept₁ won
    refine meets_bind.mpr (now_runs kept₁ fun ms t₂ same => meets_bind.mpr ?_)
    refine finishStep_runs (kept₁.of_calls same.calls) (d₁ ▸ started.checking) fun r₂ moved kept₂ => ?_
    have begun₂ : r₂.d.cutover.isBegun = true := by rw [moved.cutover_eq, d₁]; exact begun
    refine meets_bind.mpr (change_runs kept₂ (fun r₃ confirmed => ?_) fun _ e refused =>
      absurd ((Deployment.confirmCutover_error refused).symm.trans begun₂) Bool.false_ne_true)
    obtain ⟨same₃, cutover₃, recovery₃⟩ := Deployment.confirmCutover_ok confirmed
    have kept₃ : Kept cfg (some prev) d₀ r₃.d t₂.calls :=
      kept₂.cutoverMoved same₃ (fun _ => cutover₃) fun h => recovery₃.symm ▸ h
    refine succeed_runs kept₃ ?_ (same.calls ▸ won)
    rw [same₃.status_eq, moved.status_eq, d₁]; exact started.status
  · intro m r₁ t₁ d₁ kept₁ inTime
    rw [← d₁] at begun pending recovery
    exact failAfterCutover_runs ⟨kept₁, d₁ ▸ started.status, begun, d₁ ▸ started.checking,
      fun h => (nomatch h), pending, recovery, fun c mem isStart =>
        ⟨fun _ => inTime c mem isStart, fun _ => rfl⟩⟩

/-- The new release is started in place of the one that was stopped, to the end of the run. -/
theorem startNew_runs {d : Deployment} {t₁ : Trail} {stop : CallRecord}
    (announced : Announced cfg d₀ prev d t₁) (same : r.d = d)
    (called : Called (.stopCurrent prev) cfg.budgets.cutoverMs t₁ t stop) (stopEarned : stop.Earned cfg)
    (kept : Kept cfg (some prev) d₀ r.d t.calls) :
    Runs cfg (some prev) d₀ (do
      match ← Run.cutoverCall cfg .startNew with
      | .error (m, timedOut) =>
        Run.failAfterCutover cfg (some prev) .cutover .cutover m timedOut false cfg.policy.restoreBudgetMs
      | .ok () =>
        Run.repin
        let at_ ← now
        Run.change (·.finishStep .cutover true "" at_)
        Run.change (·.startStep .finalCheck at_)
        Run.save
        match ← Run.finalCheck cfg with
        | .ok note =>
          let at_ ← now
          Run.change (·.finishStep .finalCheck true note at_)
          Run.change (·.confirmCutover at_)
          Run.succeed
        | .error (m, timedOut) =>
          Run.failAfterCutover cfg (some prev) .finalCheck .finalCheck m timedOut true
            cfg.policy.restoreBudgetMs) (fun _ => Ended cfg (some prev) d₀) r t := by
  subst same
  refine meets_bind.mpr (cutoverCall_runs ⟨kept, trivial, fun h => (nomatch h), fun h => (nomatch h),
    not_succeeded_of_running announced.ahead.status⟩ ?_ ?_)
  · intro r₂ t₂ start v d₂ called₂ kept₂ returned within
    have startEarned : start.Earned cfg :=
      called₂.earned_silent returned within ⟨fun h => (nomatch h), fun h => (nomatch h)⟩
    refine meets_bind.mpr (repin_runs kept₂ fun r₃ t₃ d₃ calls₃ => ?_)
    have kept₃ : Kept cfg (some prev) d₀ r₃.d t₃.calls := by
      rw [d₃]; exact (kept₂.of_calls calls₃).congr rfl rfl rfl fun h => h
    have step₃ : ∀ s, r₃.d.step s = r.d.step s := fun s => by rw [d₃, d₂]; rfl
    refine meets_bind.mpr (now_runs kept₃ fun ms t₄ same₄ => meets_bind.mpr ?_)
    refine finishStep_runs (kept₃.of_calls same₄.calls) ?_ fun r₅ moved₅ kept₅ => meets_bind.mpr ?_
    · rw [step₃]; exact announced.running
    refine startStep_runs kept₅ (fun fresh => ?_) fun r₆ moved₆ kept₆ => ?_
    · rw [moved₅.others _ (by decide), step₃]
      exact announced.pending fresh _ (by decide)
    refine meets_bind.mpr (save_runs kept₆ fun t₇ saved => ?_)
    have calls₇ : t₇.calls = t₂.calls := saved.calls.trans (same₄.calls.trans calls₃)
    refine endReplacement_runs ⟨kept₆.of_calls saved.calls, ?_, moved₆.moved, ?_, ?_⟩ ?_ (fun fresh => ?_)
      fun fresh => ?_
    · rw [moved₆.status_eq, moved₅.status_eq, d₃, d₂]; exact announced.ahead.status
    · rw [calls₇, called₂.made (called.made announced.made)]; rfl
    · rw [calls₇]; exact called₂.earned (called.earned announced.earned stopEarned) startEarned
    · rw [moved₆.cutover_eq, moved₅.cutover_eq, d₃, d₂]; exact announced.ahead.begun
    · rw [moved₆.others _ (by decide), moved₅.others _ (by decide), step₃]
      exact announced.pending fresh _ (by decide)
    · rw [moved₆.recovery_eq, moved₅.recovery_eq, d₃, d₂]; exact announced.recovery fresh
  · intro m r₂ t₂ start d₂ called₂ kept₂ late
    refine failAfterCutover_runs ⟨kept₂, d₂ ▸ announced.ahead.status, d₂ ▸ announced.ahead.begun,
      d₂ ▸ announced.running, fun h => (nomatch h), fun fresh => ?_, fun fresh => ?_, ?_⟩
    · exact d₂ ▸ announced.pending fresh .recovery (by decide)
    · exact d₂ ▸ announced.recovery fresh
    · intro c mem isStart
      rcases List.mem_cons.mp (called₂.calls ▸ mem) with rfl | mem
      · exact ⟨fun h => (nomatch h), fun inTime => absurd inTime late⟩
      · exact absurd isStart (announced.not_started called mem)

/-- The cutover of a replacement, to its end. -/
theorem cutOver_runs
    (planned : Before cfg (some prev) d₀ prepared (.planRelease :: preparation) r.d t) :
    Runs cfg (some prev) d₀ (Run.cutOver cfg prev) (fun _ => Ended cfg (some prev) d₀) r t := by
  refine announce_runs planned fun r₁ t₁ announced => meets_bind.mpr ?_
  have begun : r₁.d.cutover.isBegun = true := announced.ahead.begun
  refine cutoverCall_runs ⟨announced.kept, ⟨announced.kept_all, r₁.d, announced.acked, announced.stored,
    announced.ahead⟩, fun _ => CutoverState.hasBegun_of_isBegun begun, fun h => (nomatch h),
    not_succeeded_of_running announced.ahead.status⟩ ?_ ?_
  · intro r₂ t₂ stop v d₂ called kept₂ returned within
    have stopEarned : stop.Earned cfg :=
      called.earned_silent returned within ⟨fun h => (nomatch h), fun h => (nomatch h)⟩
    exact startNew_runs announced d₂ called stopEarned kept₂
  · intro m r₂ t₂ stop d₂ called kept₂ late
    refine failAfterCutover_runs ⟨kept₂, d₂ ▸ announced.ahead.status, d₂ ▸ begun,
      d₂ ▸ announced.running, fun h => (nomatch h), fun fresh => ?_, fun fresh => ?_, ?_⟩
    · exact d₂ ▸ announced.pending fresh .recovery (by decide)
    · exact d₂ ▸ announced.recovery fresh
    · intro c mem isStart
      exact absurd isStart (announced.not_started called mem)

theorem whyNotCutOver_runs {plan : CutoverPlan} {post : Option NotCutOver → Run → Trail → Prop}
    (h : ∀ why, post why r t) : Runs cfg previous d₀ (Run.whyNotCutOver plan) post r t := by
  refine meets_bind.mpr (meets_ask.mpr ⟨trivial, fun supported => ?_⟩)
  cases supported with
  | false => exact h _
  | true =>
    refine meets_bind.mpr (meets_ask.mpr ⟨trivial, fun confirmed => ?_⟩)
    cases confirmed with
    | false => exact h _
    | true => exact h _

theorem replacement_runs (before : Before cfg (some prev) d₀ prepared preparation r.d t) :
    Runs cfg (some prev) d₀ (Run.replacement cfg prev) (fun _ => Ended cfg (some prev) d₀) r t := by
  refine meets_bind.mpr (meets_get.mpr (meets_bind.mpr (whyNotCutOver_runs fun why => ?_)))
  cases why with
  | some why => exact meets_bind.mpr (modify_runs fun r₁ d₁ =>
      endCancelled_runs (d₁ ▸ before.kept) (d₁ ▸ before.status))
  | none =>
    refine meets_bind.mpr ((planAndPin_runs before (by decide)).imp fun go r₁ t₁ goes => ?_)
    cases go with
    | false => exact goes
    | true => exact cutOver_runs goes

/-! ## From the beginning to the end -/

/-- At the start of a process nothing was done. -/
theorem kept_start (d : Deployment) : Kept cfg previous d d Trail.start.calls :=
  ⟨fun _ h => (nomatch h), rfl, fun h => (nomatch h), fun h => (nomatch h), fun h => h, .inl⟩

/-- A run up to its end, its cleanup apart. -/
theorem drive_runs (r : Run) : Runs cfg previous r.d (Run.drive cfg previous)
    (fun _ r' t => r.d.status ≠ .succeeded ∧ Ended cfg previous r.d r' t) r Trail.start := by
  have kept : Kept cfg previous r.d r.d Trail.start.calls := kept_start r.d
  refine meets_bind.mpr (now_runs kept fun ms t₁ same => meets_bind.mpr ?_)
  refine change_runs (kept.of_calls same.calls) (fun r₁ moved => ?_) fun fresh e refused => ?_
  · obtain ⟨legal, moved⟩ := Deployment.transition_ok moved
    have open_ : r.d.status ≠ .succeeded := fun succeeded => by rw [succeeded] at legal; cases legal
    suffices ends : Runs cfg previous r.d _ (fun _ => Ended cfg previous r.d) r₁ t₁ from
      ends.imp fun _ _ _ ended => ⟨open_, ended⟩
    have kept₁ := (kept.of_calls same.calls).statusMoved moved fun h => (nomatch h)
    refine meets_bind.mpr (save_runs kept₁ fun t₂ saved => ?_)
    have calls₂ : t₂.calls = [] := saved.calls.trans same.calls
    have begins : Before cfg previous r.d [] [] r₁.d t₂ := by
      refine ⟨kept₁.of_calls saved.calls, saved.acked, saved.stored,
        saved.lost.trans same.lost, by rw [calls₂]; rfl, ?_, ?_, moved.status,
        fun _ h => (nomatch h), fun fresh => moved.cutover.trans fresh.cutover,
        fun fresh => moved.recovery.trans fresh.recovery, fun fresh s _ => ?_⟩
      · rw [calls₂]; exact fun _ h => (nomatch h)
      · rw [calls₂]; exact fun _ h => (nomatch h)
      · rw [Deployment.step, moved.steps rfl]; exact fresh.pending s
    refine meets_bind.mpr ((plainStep_runs begins (by decide) (.inl rfl) rfl).imp fun go r₃ t₃ goes => ?_)
    cases go with
    | false => exact goes
    | true =>
    refine meets_bind.mpr ((plainStep_runs goes (by decide) (.inr rfl) rfl).imp fun go r₄ t₄ goes => ?_)
    cases go with
    | false => exact goes
    | true =>
    refine meets_bind.mpr ((preliminaryStep_runs goes (by decide)).imp fun go r₅ t₅ goes => ?_)
    cases go with
    | false => exact goes
    | true =>
    have before : Before cfg previous r.d prepared preparation r₅.d t₅ := goes
    refine meets_bind.mpr (meets_ask.mpr ⟨trivial, fun cancel => ?_⟩)
    cases cancel with
    | true => exact endCancelled_runs before.kept before.status
    | false =>
      cases previous with
      | none => exact firstDeployment_runs before
      | some prev => exact replacement_runs before
  · have illegal := Deployment.transition_error refused
    rw [fresh.status] at illegal
    cases illegal

/-- The cleanup, and the report. -/
theorem finish_runs (ended : Ended cfg previous d₀ r t) :
    Runs cfg previous d₀ Run.finish
      (fun report r t => Ended cfg previous d₀ r t ∧ report.status = r.d.status) r t := by
  have same : ∀ r' t', r'.d = r.d → t'.calls = t.calls → t'.acked = t.acked →
      Ended cfg previous d₀ r' t' := fun r' t' d' calls acked =>
    ⟨d' ▸ ended.kept.of_calls calls, d' ▸ ended.terminal, acked.trans (d' ▸ ended.acked)⟩
  have cleaned : Runs cfg previous d₀ Run.cleanup (fun _ => Ended cfg previous d₀) r t := by
    refine meets_bind.mpr (meets_get.mpr ?_)
    split
    · exact ended
    · split
      · refine meets_bind.mpr (onLedger_runs (reconcile_cleans _) ended.kept fun _ r₁ t₁ d₁ same₁ => ?_)
        exact modify_runs fun r₂ d₂ => same r₂ t₁ (d₂.trans d₁) same₁.calls same₁.acked
      · exact ended
  refine meets_bind.mpr (cleaned.imp fun _ r₁ t₁ ended => meets_bind.mpr (meets_get.mpr ?_))
  exact ⟨ended, rfl⟩

end

variable (cfg : RunConfig) (previous : Option PreviousRelease) (d₀ : Deployment)

/-- The report that a run ends with. -/
structure Reported (report : Report) (r : Run) (t : Trail) : Prop extends Ended cfg previous d₀ r t where
  status : report.status = r.d.status
  opened : d₀.status ≠ .succeeded

/-- What a run does, whatever it meets: it keeps the protocol, and it ends or stops. -/
theorem run_runs : Runs cfg previous d₀ (do Run.drive cfg previous; Run.finish)
    (Reported cfg previous d₀) (Run.start cfg d₀) Trail.start := by
  refine meets_bind.mpr ((drive_runs (Run.start cfg d₀)).imp fun _ r t ended => ?_)
  exact (finish_runs ended.2).imp fun _ _ _ ⟨ended', status⟩ => ⟨ended', status, ended.1⟩

section

variable {cfg} {d : Deployment} {ctx : Context} {h : History EngineSig}

/-- A run keeps the protocol wherever it is cut short. -/
theorem run_lawful {q : Program EngineSig (Except EngineError Report × Run)}
    (follows : Program.Follows (runDeploymentConfirmed d ctx cfg) h q) :
    Lawful Trail.see (Rule cfg (previousOf ctx cfg) d) Trail.start h :=
  (Program.Obeys.follows (run_runs cfg (previousOf ctx cfg) d) follows).2

/-- The operation that a run asks next is allowed. -/
theorem run_allowed {op : EngineOp}
    {next : op.Answer → Program EngineSig (Except EngineError Report × Run)}
    (follows : Program.Follows (runDeploymentConfirmed d ctx cfg) h (.ask op next)) :
    Rule cfg (previousOf ctx cfg) d (Trail.of h) op :=
  Program.Obeys.allowed (run_runs cfg (previousOf ctx cfg) d) follows

theorem run_reported {report : Report} {r : Run}
    (follows : Program.Follows (runDeploymentConfirmed d ctx cfg) h (.done (.ok report, r))) :
    Reported cfg (previousOf ctx cfg) d report r (Trail.of h) := by
  have ended := Program.Obeys.ended (run_runs cfg (previousOf ctx cfg) d) follows
  exact ended

theorem run_stopped {e : EngineError} {r : Run}
    (follows : Program.Follows (runDeploymentConfirmed d ctx cfg) h (.done (.error e, r))) :
    Stops cfg (previousOf ctx cfg) d e r (Trail.of h) := by
  have ended := Program.Obeys.ended (run_runs cfg (previousOf ctx cfg) d) follows
  exact ended

end

end Harpoon.Deploy
