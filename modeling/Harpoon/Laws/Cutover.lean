import Harpoon.Laws.Preparation

/-!
# From the cutover on

The specifications of a run's stages once a release may be stopped: the two calls of the cutover, the
final check, and the path by which a failure leads to the one restoration. Then the whole run.
-/

namespace Harpoon.Deploy

open Interact Process

/-! ## Calls of the cutover -/

section

variable {cfg : RunConfig} {previous : Option PreviousRelease} {d₀ : Deployment} {r : Run}
  {t t' : Trail} {c : Call} {record : CallRecord}

theorem cutoverCall_runs {post : Except (String × Bool) Unit → Run → Trail → Prop}
    (may : MayCall cfg previous d₀ c cfg.budgets.cutoverMs r.d t)
    (ok : ∀ r' t' record v, r'.d = r.d → Called c cfg.budgets.cutoverMs t t' record →
      Kept cfg previous d₀ r'.d t'.calls → record.returned = some ⟨c, .ok v⟩ → record.Within →
      post (.ok ()) r' t')
    (error : ∀ m r' t' record, r'.d = r.d → Called c cfg.budgets.cutoverMs t t' record →
      Kept cfg previous d₀ r'.d t'.calls → ¬ record.InTime → post (.error m) r' t') :
    Runs cfg previous d₀ (Run.cutoverCall cfg c) post r t := by
  refine meets_bind.mpr (call_runs mapped_once may ?_)
  intro out r₁ t₁ record d₁ called _ inTime late kept
  split
  next hres =>
    obtain ⟨v, _, returned, within⟩ := inTime () hres
    exact ok r₁ t₁ record v d₁ called kept returned within
  next e hres =>
    refine meets_bind.mpr (failure_runs fun m r₂ d₂ => ?_)
    exact error m r₂ t₁ record (d₂.trans d₁) called (d₂ ▸ kept) (late e hres)

/-- Whether simulated evidence is accepted is asked of the last call. -/
theorem Called.asked {budget : Nat} (called : Called c budget t t' record) (accepts : Bool) :
    Called c budget t (t'.see ⟨.acceptsSimulatedEvidence, accepts⟩)
      { record with accepts := some accepts } := by
  refine ⟨called.call, called.budget, called.ended, ?_, called.acked, called.stored⟩
  simp only [Trail.see, Trail.onLast, called.calls]

theorem finalCheck_runs {post : Except (String × Bool) String → Run → Trail → Prop}
    (may : MayCall cfg previous d₀ .finalCheck cfg.budgets.finalMs r.d t)
    (ok : ∀ note r' t' record, r'.d = r.d → Called .finalCheck cfg.budgets.finalMs t t' record →
      Kept cfg previous d₀ r'.d t'.calls → record.Earned cfg → post (.ok note) r' t')
    (error : ∀ m r' t' record, r'.d = r.d → Called .finalCheck cfg.budgets.finalMs t t' record →
      Kept cfg previous d₀ r'.d t'.calls → post (.error m) r' t') :
    Runs cfg previous d₀ (Run.finalCheck cfg) post r t := by
  refine meets_bind.mpr (call_runs callBackend_once may ?_)
  intro out r₁ t₁ record d₁ called _ inTime _ kept
  have failed : ∀ e t₂ record, Called .finalCheck cfg.budgets.finalMs t t₂ record →
      Runs cfg previous d₀
        (do return .error (← Run.failure cfg .finalCheck e out.elapsed cfg.budgets.finalMs))
        post r₁ t₂ := by
    intro e t₂ record called
    refine meets_bind.mpr (failure_runs fun m r₂ d₂ => ?_)
    have same : r₂.d = r.d := d₂.trans d₁
    exact error m r₂ t₂ record same called (same ▸ may.after called)
  cases hres : out.res with
  | error e => exact meets_bind.mpr (failed e t₁ record called)
  | ok ev =>
    refine meets_bind.mpr (meets_bind.mpr (meets_ask.mpr ⟨trivial, fun accepts => ?_⟩))
    have asked := called.asked accepts
    refine meets_pure.mpr ?_
    cases judged : Run.judge (.ok ev) accepts with
    | error e => exact failed e _ _ asked
    | ok seen =>
      obtain ⟨_, ⟨⟩, valid, simulated⟩ := judge_ok judged
      obtain ⟨_, rfl, returned, within⟩ := inTime ev hres
      refine meets_bind.mpr (modify_runs fun r₂ d₂ => ?_)
      have same : r₂.d = r.d := d₂.trans d₁
      refine ok _ r₂ _ _ same asked (same ▸ may.after asked) ?_
      have budget : record.budgetMs = cfg.budgetFor record.call := by
        rw [called.call]; exact called.budget
      exact earned_of_check budget (.inr ⟨called.call, returned⟩) within valid fun h => congrArg some (simulated h)

theorem warnFailed_runs {α : Type} {what : String} {res : Except StepError α}
    {post : Unit → Run → Trail → Prop} (h : ∀ r', r'.d = r.d → post () r' t) :
    Runs cfg previous d₀ (Run.warnFailed cfg what res) post r t := by
  cases res with
  | ok v => exact h r rfl
  | error e => exact warn_runs h

theorem warnNotRestored_runs {out : Outcome RestoreResult} {post : Unit → Run → Trail → Prop}
    (h : ∀ r', r'.d = r.d → post () r' t) :
    Runs cfg previous d₀ (Run.warnNotRestored cfg out) post r t := by
  unfold Run.warnNotRestored
  split
  · split
    · exact h r rfl
    · exact warnFailed_runs h
  · exact h r rfl

/-- The new release is stopped, whatever comes of it. -/
theorem stopFailedNewRelease_runs {post : Unit → Run → Trail → Prop}
    (may : MayCall cfg previous d₀ .stopNew cfg.budgets.cleanupMs r.d t)
    (h : ∀ r' t' record, r'.d = r.d → Called .stopNew cfg.budgets.cleanupMs t t' record →
      Kept cfg previous d₀ r'.d t'.calls → post () r' t') :
    Runs cfg previous d₀ (Run.stopFailedNewRelease cfg) post r t := by
  refine meets_bind.mpr (call_runs mapped_once may ?_)
  intro out r₁ t₁ record d₁ called _ _ _ kept
  exact warnFailed_runs fun r₂ d₂ => h r₂ t₁ record (d₂.trans d₁) called (d₂ ▸ kept)

/-! ## The restoration -/

theorem FreedFirst.cons {calls : List CallRecord} (freed : FreedFirst calls)
    (other : record.call ≠ .startNew) : FreedFirst (record :: calls) := by
  intro later c earlier split started inTime
  cases later with
  | nil =>
    obtain ⟨rfl, _⟩ := List.cons.inj split
    exact absurd started other
  | cons c' later =>
    obtain ⟨_, rest⟩ := List.cons.inj split
    obtain ⟨stop, mem, stopped⟩ := freed later c earlier rest started inTime
    exact ⟨stop, List.mem_cons_of_mem _ mem, stopped⟩

theorem restoreOutcome_settled (out : Outcome RestoreResult) :
    Run.restoreOutcome out ≠ .inProgress := by
  intro h
  unfold Run.restoreOutcome at h
  split at h
  case h_6 => split at h <;> cases h
  all_goals cases h

variable (cfg previous d₀) in
/-- The one restoration may be tried: it is recorded, and no other was made. -/
structure Restoring (d : Deployment) (t : Trail) : Prop where
  kept : Kept cfg previous d₀ d t.calls
  open_ : d.status = .succeeded → d₀.status = .succeeded
  recovery : d.recovery.isSome = true
  unspent : d₀.recovery = none
  first : made Call.isRestorePrevious t.calls = false
  stored : t.stored = some d
  freed : FreedFirst t.calls

theorem restorePhase_runs {replaced : Option PreviousRelease}
    {post : RecoveryOutcome → Run → Trail → Prop} (ready : Restoring cfg previous d₀ r.d t)
    (h : ∀ outcome r' t', r'.d = r.d → Kept cfg previous d₀ r'.d t'.calls → outcome ≠ .inProgress →
      post outcome r' t') :
    Runs cfg previous d₀ (Run.restorePhase cfg replaced cfg.policy.restoreBudgetMs) post r t := by
  cases replaced with
  | none => exact h _ r t rfl ready.kept fun h => (nomatch h)
  | some prev =>
    unfold Run.restorePhase
    dsimp only
    split
    · exact h _ r t rfl ready.kept fun h => (nomatch h)
    · have check : MayCall cfg previous d₀ (.restoreBlockers prev) cfg.policy.restoreBudgetMs r.d t :=
        ⟨ready.kept, trivial, fun h => (nomatch h), fun h => (nomatch h), ready.open_⟩
      refine meets_bind.mpr (call_runs callBackend_once check ?_)
      intro checked r₁ t₁ record₁ d₁ called₁ _ _ _ kept₁
      refine meets_bind.mpr (warnFailed_runs fun r₂ d₂ => ?_)
      have same : r₂.d = r.d := d₂.trans d₁
      split
      · refine meets_bind.mpr (warn_runs fun r₃ d₃ => ?_)
        have same₃ : r₃.d = r.d := d₃.trans same
        exact h _ r₃ t₁ same₃ (same₃ ▸ d₁ ▸ kept₁) fun h => (nomatch h)
      · have restore : MayCall cfg previous d₀ (.restorePrevious prev cfg.policy.restoreBudgetMs)
            cfg.policy.restoreBudgetMs r₂.d t₁ := by
          rw [same]
          refine ⟨d₁ ▸ kept₁, ⟨?_, ready.unspent, ⟨r.d, ?_, ready.recovery⟩, ?_⟩, fun h => (nomatch h),
            fun _ => ready.recovery, ready.open_⟩
          · rw [called₁.calls, made, List.any_cons, called₁.call]
            exact ready.first
          · exact called₁.stored.trans ready.stored
          · rw [called₁.calls]
            refine ready.freed.cons fun isStart => ?_
            rw [called₁.call] at isStart; cases isStart
        refine meets_bind.mpr (call_runs callBackend_once restore ?_)
        intro out r₃ t₃ record₃ d₃ _ _ _ _ kept₃
        refine meets_bind.mpr (warnNotRestored_runs fun r₄ d₄ => ?_)
        exact h _ r₄ t₃ (d₄.trans (d₃.trans same)) (d₄ ▸ kept₃) (restoreOutcome_settled out)

/-! ## A failure after the cutover began -/

variable (cfg previous d₀) in
/-- The step failed after the cutover began; `newStarted` says whether the new release was started. -/
structure Failing (newStarted : Bool) (step : Step) (d : Deployment) (t : Trail) : Prop where
  kept : Kept cfg previous d₀ d t.calls
  status : d.status = .running
  begun : d.cutover.isBegun = true
  running : (d.step step).status = .running
  apart : step ≠ .recovery
  pending : d₀.Fresh → (d.step .recovery).status = .pending
  recovery : d₀.Fresh → d.recovery = none
  started : ∀ c ∈ t.calls, c.call = .startNew → (newStarted = true ↔ c.InTime)

/-- A new release that was started is stopped before the restoration. -/
theorem freeAddress_runs {newStarted : Bool} {post : Unit → Run → Trail → Prop}
    (kept : Kept cfg previous d₀ r.d t.calls) (status : r.d.status = .running)
    (recovery : r.d.recovery.isSome = true) (unspent : d₀.recovery = none)
    (first : made Call.isRestorePrevious t.calls = false) (stored : t.stored = some r.d)
    (started : ∀ c ∈ t.calls, c.call = .startNew → (newStarted = true ↔ c.InTime))
    (h : ∀ r' t', r'.d = r.d → Restoring cfg previous d₀ r'.d t' → post () r' t') :
    Runs cfg previous d₀ (Run.freeAddress cfg newStarted) post r t := by
  have open_ : r.d.status = .succeeded → d₀.status = .succeeded := not_succeeded_of_running status
  cases newStarted with
  | false =>
    refine h r t rfl ⟨kept, open_, recovery, unspent, first, stored, ?_⟩
    intro later c earlier split isStart inTime
    have mem : c ∈ t.calls := split ▸ List.mem_append_right later List.mem_cons_self
    cases (started c mem isStart).mpr inTime
  | true =>
    have may : MayCall cfg previous d₀ .stopNew cfg.budgets.cleanupMs r.d t :=
      ⟨kept, fun c mem isStart => (started c mem isStart).mp rfl, fun h => (nomatch h),
        fun h => (nomatch h), open_⟩
    refine stopFailedNewRelease_runs may fun r₁ t₁ record d₁ called kept₁ => ?_
    refine h r₁ t₁ d₁ ⟨kept₁, d₁ ▸ open_, d₁ ▸ recovery, unspent, ?_, ?_, ?_⟩
    · rw [called.calls, made, List.any_cons, called.call]
      exact first
    · rw [called.stored, d₁]; exact stored
    · rw [called.calls]
      intro later c earlier split isStart _
      cases later with
      | nil =>
        obtain ⟨rfl, _⟩ := List.cons.inj split
        rw [called.call] at isStart; cases isStart
      | cons c' later =>
        obtain ⟨rfl, _⟩ := List.cons.inj split
        exact ⟨record, List.mem_cons_self, called.call⟩

/-- The outcome of the restoration is recorded, and then the rest of the code runs. -/
theorem recordOutcome_runs {α : Type} {outcome : RecoveryOutcome} {rest : Nat → RunM α}
    {post : α → Run → Trail → Prop} (kept : Kept cfg previous d₀ r.d t.calls)
    (recovering : r.d.Recovering) (running : (r.d.step .recovery).status = .running)
    (settled : outcome ≠ .inProgress)
    (h : ∀ ms r' t', r'.d.status = r.d.status → Kept cfg previous d₀ r'.d t'.calls →
      Runs cfg previous d₀ (rest ms) post r' t') :
    Runs cfg previous d₀ (do
      let at_ ← now
      Run.change (·.finishRecovery outcome at_)
      Run.change (·.finishStep .recovery outcome.serviceRestored outcome.asStr at_)
      rest at_) post r t := by
  refine meets_bind.mpr (now_runs kept fun ms t₁ same => meets_bind.mpr ?_)
  have kept₁ := kept.of_calls same.calls
  refine change_runs kept₁ (fun r₂ recorded => ?_) fun _ e refused =>
    settled (Deployment.finishRecovery_error refused recovering)
  obtain ⟨same₂, cutover₂, recovery₂⟩ := Deployment.finishRecovery_ok recorded
  have kept₂ : Kept cfg previous d₀ r₂.d t₁.calls :=
    kept₁.cutoverMoved same₂ (fun h => cutover₂.symm ▸ h) fun _ => recovery₂
  have running₂ : (r₂.d.step .recovery).status = .running := by rw [same₂.step_eq]; exact running
  refine meets_bind.mpr (finishStep_runs kept₂ running₂ fun r₃ moved kept₃ => ?_)
  exact h ms r₃ t₁ (moved.status_eq.trans same₂.status_eq) kept₃

/-- The failure and the restoration that follows are recorded first; then the rest of the code
runs. -/
theorem recordFailure_runs {α : Type} {step : Step} {kind : FailureKind} {message : String}
    {timedOut newStarted : Bool} {budgetMs : Nat} {rest : Unit → RunM α}
    {post : α → Run → Trail → Prop} (failing : Failing cfg previous d₀ newStarted step r.d t)
    (h : ∀ r' t', Kept cfg previous d₀ r'.d t'.calls → r'.d.status = .running → r'.d.Recovering →
      (r'.d.step .recovery).status = .running → d₀.recovery = none →
      made Call.isRestorePrevious t'.calls = false → t'.stored = some r'.d → t'.calls = t.calls →
      Runs cfg previous d₀ (rest ()) post r' t') :
    Runs cfg previous d₀ (do
      let at_ ← now
      Run.change (·.finishStep step false message at_)
      Run.setFailure step kind message timedOut
      Run.change (·.failCutover at_)
      Run.change (·.startStep .recovery at_)
      Run.change (·.startRecovery budgetMs at_)
      Run.save >>= rest) post r t := by
  refine meets_bind.mpr (now_runs failing.kept fun ms t₁ same₁ => meets_bind.mpr ?_)
  refine finishStep_runs (failing.kept.of_calls same₁.calls) failing.running fun r₁ moved₁ kept₁ => ?_
  refine meets_bind.mpr (modify_runs fun r₂ d₂ => meets_bind.mpr ?_)
  have kept₂ : Kept cfg previous d₀ r₂.d t₁.calls := d₂ ▸ kept₁.congr rfl rfl rfl fun h => h
  have begun₂ : r₂.d.cutover.isBegun = true := by
    rw [d₂, show _ = r.d.cutover from moved₁.cutover_eq]; exact failing.begun
  have recovery₂ : r₂.d.recovery = r.d.recovery := by rw [d₂]; exact moved₁.recovery_eq
  have step₂ : r₂.d.step .recovery = r.d.step .recovery := by
    rw [d₂]; exact moved₁.others .recovery (Ne.symm failing.apart)
  have status₂ : r₂.d.status = .running := by rw [d₂]; exact moved₁.status_eq.trans failing.status
  refine change_runs kept₂ (fun r₃ failed => ?_) fun _ e refused =>
    absurd ((Deployment.failCutover_error refused).symm.trans begun₂) Bool.false_ne_true
  obtain ⟨_, same₃, cutover₃, recovery₃⟩ := Deployment.failCutover_ok failed
  have kept₃ : Kept cfg previous d₀ r₃.d t₁.calls :=
    kept₂.cutoverMoved same₃ (fun _ => by rw [cutover₃]; rfl) fun h => recovery₃.symm ▸ h
  have pending₃ : d₀.Fresh → (r₃.d.step .recovery).status = .pending := fun fresh => by
    rw [same₃.step_eq, step₂]; exact failing.pending fresh
  refine meets_bind.mpr (startStep_runs kept₃ pending₃ fun r₄ moved₄ kept₄ => meets_bind.mpr ?_)
  refine change_runs kept₄ (fun r₅ started => ?_) fun fresh e refused => ?_
  · obtain ⟨none₄, same₅, cutover₅, recovering⟩ := Deployment.startRecovery_ok started
    have kept₅ : Kept cfg previous d₀ r₅.d t₁.calls :=
      kept₄.cutoverMoved same₅ (fun h => cutover₅.symm ▸ h) fun _ => recovering.isSome
    -- No recovery was recorded before: the restoration is the first one.
    have unspent : d₀.recovery = none := by
      cases before : d₀.recovery with
      | none => rfl
      | some r => exact absurd (kept₄.spent (by rw [before]; rfl)) (by rw [none₄]; exact nofun)
    have first : made Call.isRestorePrevious t₁.calls = false := by
      cases before : made Call.isRestorePrevious t₁.calls with
      | false => rfl
      | true => exact absurd (kept₄.restored before) (by rw [none₄]; exact nofun)
    have status₅ : r₅.d.status = .running := by
      rw [same₅.status_eq, moved₄.status_eq, same₃.status_eq]; exact status₂
    have running₅ : (r₅.d.step .recovery).status = .running := by
      rw [same₅.step_eq]; exact moved₄.moved
    refine meets_bind.mpr (save_runs kept₅ fun t₆ saved => ?_)
    exact h r₅ t₆ (kept₅.of_calls saved.calls) status₅ recovering running₅ unspent
      (saved.calls.symm ▸ first) saved.stored (saved.calls.trans same₁.calls)
  · refine Deployment.startRecovery_error refused ?_ ?_
    · rw [moved₄.cutover_eq, cutover₃]; rfl
    · rw [moved₄.recovery_eq, recovery₃, recovery₂]; exact failing.recovery fresh

/-- The deployment that failed after its cutover began ends, with the one restoration recorded. -/
theorem failAfterCutover_runs {replaced : Option PreviousRelease} {step : Step} {kind : FailureKind}
    {message : String} {timedOut newStarted : Bool}
    (failing : Failing cfg previous d₀ newStarted step r.d t) :
    Runs cfg previous d₀ (Run.failAfterCutover cfg replaced step kind message timedOut newStarted
      cfg.policy.restoreBudgetMs) (fun _ => Ended cfg previous d₀) r t := by
  refine recordFailure_runs failing fun r₁ t₁ kept status recovering running unspent first stored calls => ?_
  have started : ∀ c ∈ t₁.calls, c.call = .startNew → (newStarted = true ↔ c.InTime) :=
    fun c mem => failing.started c (calls ▸ mem)
  refine meets_bind.mpr (freeAddress_runs kept status recovering.isSome unspent first stored started
    fun r₂ t₂ d₂ ready => meets_bind.mpr ?_)
  refine restorePhase_runs ready fun outcome r₃ t₃ d₃ kept₃ settled => ?_
  have same : r₃.d = r₁.d := d₃.trans d₂
  refine recordOutcome_runs kept₃ (same ▸ recovering) (same ▸ running) settled
    fun ms r₄ t₄ status₄ kept₄ => ?_
  exact end_runs kept₄ (status₄.trans (same ▸ status)) rfl (fun h => (nomatch h)) fun h => (nomatch h)

end

end Harpoon.Deploy
