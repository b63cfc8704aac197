import Harpoon.Laws.Steps

/-!
# Up to the cutover

The specifications of a run's stages before anything is stopped or created. `Before` describes the run
there: the steps that succeeded, the calls that were made, and a journal that is up to date. A stage
leads to the next one, or to `Ended`.
-/

namespace Harpoon.Deploy

open Interact Process

/-! ## The end -/

section

variable {cfg : RunConfig} {previous : Option PreviousRelease} {d₀ : Deployment} {r : Run} {t : Trail}

/-- A running deployment ends with any terminal status, with success only if it was won. -/
theorem end_runs {target : DeploymentStatus} {ms : Nat} (kept : Kept cfg previous d₀ r.d t.calls)
    (running : r.d.status = .running) (terminal : target.isTerminal = true) (other : target ≠ .superseded)
    (won : target = .succeeded → Won cfg previous t.calls) :
    Runs cfg previous d₀ (do Run.change (·.transition target ms); Run.save)
      (fun _ => Ended cfg previous d₀) r t := by
  refine meets_bind.mpr (change_runs kept (fun r' moved => ?_) fun _ e refused => ?_)
  · obtain ⟨_, moved⟩ := Deployment.transition_ok moved
    have kept' := kept.statusMoved moved won
    refine save_runs kept' fun t' saved => ⟨kept'.of_calls saved.calls, ?_, saved.acked⟩
    rw [moved.status]
    exact terminal
  · have illegal := Deployment.transition_error refused
    rw [running] at illegal
    cases target with
    | succeeded | failed | cancelled | interrupted => cases illegal
    | requested | queued | running => cases terminal
    | superseded => exact other rfl

theorem endCancelled_runs (kept : Kept cfg previous d₀ r.d t.calls) (running : r.d.status = .running) :
    Runs cfg previous d₀ Run.endCancelled (fun _ => Ended cfg previous d₀) r t :=
  meets_bind.mpr (now_runs kept fun _ _ same =>
    end_runs (kept.of_calls same.calls) running rfl (fun h => (nomatch h)) fun h => (nomatch h))

theorem succeed_runs (kept : Kept cfg previous d₀ r.d t.calls) (running : r.d.status = .running)
    (won : Won cfg previous t.calls) :
    Runs cfg previous d₀ Run.succeed (fun _ => Ended cfg previous d₀) r t :=
  meets_bind.mpr (now_runs kept fun _ _ same =>
    end_runs (kept.of_calls same.calls) running rfl (fun h => (nomatch h)) fun _ => same.calls ▸ won)

/-- A failure is a note on the deployment. -/
theorem Kept.withFailure {failure : Option Failure} (kept : Kept cfg previous d₀ r.d t.calls) :
    Kept cfg previous d₀ { r.d with failure := failure } t.calls := kept.congr rfl rfl rfl fun h => h

theorem endFailed_runs {step : Step} {kind : FailureKind} {message : String} {timedOut : Bool}
    {ms : Nat} (kept : Kept cfg previous d₀ r.d t.calls) (running : r.d.status = .running) :
    Runs cfg previous d₀ (Run.endFailed step kind message timedOut ms)
      (fun _ => Ended cfg previous d₀) r t := by
  refine meets_bind.mpr (meets_modify.mpr ?_)
  exact end_runs kept.withFailure running rfl (fun h => (nomatch h)) fun h => (nomatch h)

end

/-! ## Before the cutover -/

section

variable (cfg : RunConfig) (previous : Option PreviousRelease) (d₀ : Deployment)

/-- The steps in `done` succeeded, the calls `calls` were made, and nothing else was begun. -/
structure Before (done : List Step) (calls : List Call) (d : Deployment) (t : Trail) : Prop where
  kept : Kept cfg previous d₀ d t.calls
  acked : t.acked = some d
  stored : t.stored = some d
  kept_all : t.lost = false
  made : t.calls.map CallRecord.call = calls
  earned : ∀ c ∈ t.calls, c.Earned cfg
  pinned : PlanPinned d t.calls
  status : d.status = .running
  succeeded : ∀ s ∈ done, (d.step s).status = .succeeded
  cutover : d₀.Fresh → d.cutover = .notStarted
  recovery : d₀.Fresh → d.recovery = none
  pending : d₀.Fresh → ∀ s, s ∉ done → (d.step s).status = .pending

end

section

variable {cfg : RunConfig} {previous : Option PreviousRelease} {d₀ : Deployment} {r : Run}
  {t t' : Trail} {done : List Step} {calls : List Call} {c : Call} {record : CallRecord}

/-- A running deployment has not succeeded yet. -/
theorem not_succeeded_of_running {d : Deployment} {p : Prop} (running : d.status = .running)
    (h : d.status = .succeeded) : p := by
  rw [running] at h; cases h

/-- The calls of the first three steps need nothing of the protocol. -/
def Call.isPreStep : Call → Bool
  | .prepareSource | .build | .preliminaryCheck => true
  | _ => false

theorem mayCall_preStep {d : Deployment} {budget : Nat} (pre : c.isPreStep = true)
    (kept : Kept cfg previous d₀ d t.calls) (running : d.status = .running) :
    MayCall cfg previous d₀ c budget d t := by
  cases c with
  | prepareSource | build | preliminaryCheck =>
    exact ⟨kept, trivial, fun h => (nomatch h), fun h => (nomatch h), not_succeeded_of_running running⟩
  | _ => cases pre

/-- What was pinned stays pinned, and only a plan has to be. -/
theorem PlanPinned.cons {d d' : Deployment} {records : List CallRecord}
    (pinned : PlanPinned d records) (same : d'.pinned = d.pinned) (other : record.call ≠ .planRelease) :
    PlanPinned d' (record :: records) := by
  intro c' mem plan config returned
  rcases List.mem_cons.mp mem with rfl | mem
  · exact absurd plan other
  · exact same.trans (pinned c' mem plan config returned)

/-- A step ran: it was pending, its call was made, and now it succeeded. -/
theorem Before.next {step : Step} {d₁ d₂ d₃ : Deployment} {t₂ t₃ : Trail}
    (before : Before cfg previous d₀ done calls r.d t) (started : r.d.StepMoved step .running d₁)
    (recorded : t₂.calls = record :: t.calls) (call : record.call = c) (lost : t₂.lost = false)
    (kept : Kept cfg previous d₀ d₁ t₂.calls) (earned : record.Earned cfg)
    (other : c ≠ .planRelease) (finished : d₁.StepMoved step .succeeded d₂) (released : d₃ = { d₂ with release := d₃.release })
    (saved : t₂.Saved d₃ t₃) : Before cfg previous d₀ (step :: done) (c :: calls) d₃ t₃ := by
  have all : d₃ = { r.d with steps := d₂.steps, release := d₃.release } := by
    rw [released, finished.rest, started.rest]
  have steps : ∀ s, d₃.step s = d₂.step s := fun s => by rw [released]; rfl
  have records : t₃.calls = record :: t.calls := saved.calls.trans recorded
  refine ⟨?_, saved.acked, saved.stored, saved.lost.trans lost, ?_, ?_, ?_, ?_, ?_, fun fresh => ?_,
    fun fresh => ?_, fun fresh s new => ?_⟩
  · refine Kept.of_calls ((kept.stepMoved finished).congr ?_ ?_ ?_ fun h => ?_) saved.calls
    · exact congrArg (·.id) released
    · exact congrArg (·.cutover) released
    · exact congrArg (·.recovery) released
    · exact (congrArg (·.status) released).symm.trans h
  · rw [records, List.map_cons, call, before.made]
  · intro c' mem
    rw [records] at mem
    rcases List.mem_cons.mp mem with rfl | mem
    · exact earned
    · exact before.earned c' mem
  · rw [records]
    exact before.pinned.cons (congrArg (·.pinned) all) (call ▸ other)
  · exact (congrArg (·.status) all).trans before.status
  · intro s mem
    rw [steps]
    by_cases same : s = step
    · rw [same]; exact finished.moved
    · rw [finished.others s same, started.others s same]
      exact before.succeeded s ((List.mem_cons.mp mem).resolve_left same)
  · exact (congrArg (·.cutover) all).trans (before.cutover fresh)
  · exact (congrArg (·.recovery) all).trans (before.recovery fresh)
  · have apart : s ≠ step := fun same => new (same ▸ List.mem_cons_self)
    rw [steps, finished.others s apart, started.others s apart]
    exact before.pending fresh s fun mem => new (List.mem_cons_of_mem _ mem)

/-- What a stage ends with: the next one may begin, or the run has ended. -/
def Goes (cfg : RunConfig) (previous : Option PreviousRelease) (d₀ : Deployment)
    (next : Run → Trail → Prop) (go : Bool) (r : Run) (t : Trail) : Prop :=
  match go with
  | true => next r t
  | false => Ended cfg previous d₀ r t

/-- A build only names the release. -/
theorem releaseOf_d {step : Step} : (Run.releaseOf step r).d =
    { r.d with release := (Run.releaseOf step r).d.release } := by
  unfold Run.releaseOf
  split <;> rfl

theorem endStep_runs {step : Step} {kind : FailureKind} {elapsed : Nat} {r₂ : Run} {t₂ : Trail}
    {out : Except StepError (Option CheckEvidence)}
    (before : Before cfg previous d₀ done calls r.d t) (started : r.d.StepMoved step .running r₂.d)
    (recorded : t₂.calls = record :: t.calls) (call : record.call = c) (lost : t₂.lost = false)
    (kept : Kept cfg previous d₀ r₂.d t₂.calls) (earned : ∀ ev, out = .ok ev → record.Earned cfg)
    (other : c ≠ .planRelease) :
    Runs cfg previous d₀ (Run.endStep cfg step kind elapsed out)
      (Goes cfg previous d₀ fun r' => Before cfg previous d₀ (step :: done) (c :: calls) r'.d) r₂ t₂ := by
  have running : r₂.d.status = .running := started.status_eq.trans before.status
  cases out with
  | ok ev =>
    refine meets_bind.mpr (now_runs kept fun ms t₃ same => meets_bind.mpr (modify_runs fun r₃ d₃ => ?_))
    have d₃ : r₃.d = r₂.d := d₃
    have kept₃ := kept.of_calls same.calls
    refine meets_bind.mpr (finishStep_runs (d₃ ▸ kept₃) (d₃ ▸ started.moved) fun r₄ moved kept₄ => ?_)
    refine meets_bind.mpr (modify_runs fun r₅ d₅ => ?_)
    have released : r₅.d = { r₄.d with release := r₅.d.release } := by
      rw [d₅]; exact releaseOf_d
    have kept₅ : Kept cfg previous d₀ r₅.d t₃.calls := by
      refine kept₄.congr ?_ ?_ ?_ fun h => ?_
      · exact congrArg (·.id) released
      · exact congrArg (·.cutover) released
      · exact congrArg (·.recovery) released
      · exact (congrArg (·.status) released).symm.trans h
    refine meets_bind.mpr (save_runs kept₅ fun t₅ saved => ?_)
    exact before.next started (same.calls.trans recorded) call (same.lost.trans lost) kept₃
      (earned ev rfl) other (d₃ ▸ moved) released saved
  | error e =>
    refine meets_bind.mpr (now_runs kept fun ms t₃ same => meets_bind.mpr (describe_runs fun m r₃ d₃ => ?_))
    have kept₃ := kept.of_calls same.calls
    refine meets_bind.mpr (finishStep_runs (d₃ ▸ kept₃) (d₃ ▸ started.moved) fun r₄ moved kept₄ => ?_)
    have running₄ : r₄.d.status = .running := moved.status_eq.trans (d₃ ▸ running)
    exact meets_bind.mpr ((endFailed_runs kept₄ running₄).imp fun _ _ _ ended => ended)

/-- One step before the cutover. -/
theorem preStep_runs {step : Step} {kind : FailureKind} {f : StepFn (Option CheckEvidence)}
    {sees : Except StepError (Option CheckEvidence) → Except StepError c.Ret → Option Bool → Prop}
    (before : Before cfg previous d₀ done calls r.d t) (new : step ∉ done) (pre : c.isPreStep = true)
    (budget : cfg.budgets.forStep step = cfg.budgetFor c) (once : CallsOnce cfg previous d₀ c f sees)
    (honest : ∀ got res accepts, sees got res accepts → fatalIn got = fatalIn res)
    (earns : ∀ (record : CallRecord) v res, sees (.ok v) res record.accepts →
      record.returned = some ⟨c, res⟩ → record.call = c → record.budgetMs = cfg.budgetFor c →
      record.Within → record.Earned cfg) :
    Runs cfg previous d₀ (Run.preStep cfg step kind f)
      (Goes cfg previous d₀ fun r' => Before cfg previous d₀ (step :: done) (c :: calls) r'.d) r t := by
  refine meets_bind.mpr (meets_ask.mpr ⟨trivial, fun cancel => ?_⟩)
  cases cancel with
  | true =>
    refine meets_bind.mpr ((endCancelled_runs before.kept before.status).imp fun _ _ _ ended => ?_)
    exact ended
  | false =>
    refine meets_bind.mpr (now_runs before.kept fun ms t₁ same₁ => meets_bind.mpr ?_)
    refine startStep_runs (before.kept.of_calls same₁.calls)
      (fun fresh => before.pending fresh step new) fun r₁ moved kept₁ => ?_
    have running : r₁.d.status = .running := moved.status_eq.trans before.status
    refine meets_bind.mpr (save_runs kept₁ fun t₂ saved => ?_)
    refine meets_bind.mpr (meets_get.mpr (meets_bind.mpr ?_))
    refine exec_runs once honest (mayCall_preStep pre (kept₁.of_calls saved.calls) running) ?_
    rintro out r₃ t₃ record d₃ called lost ⟨got, res, saw, returned, ok, _⟩ kept₃
    have other : c ≠ .planRelease := fun h => by rw [h] at pre; cases pre
    have recorded : t₃.calls = record :: t.calls :=
      called.calls.trans (congrArg (record :: ·) (saved.calls.trans same₁.calls))
    have lost₃ : t₃.lost = false :=
      lost.trans (saved.lost.trans (same₁.lost.trans before.kept_all))
    have earned : ∀ ev, out.res = .ok ev → record.Earned cfg := fun ev hev => by
      obtain ⟨rfl, within⟩ := ok ev hev
      exact earns record ev res saw returned called.call (called.budget.trans budget) within
    have ends : ∀ out' r₄ t₄, r₄.d = r₃.d → t₃.Same t₄ → (∀ ev, out' = .ok ev → out.res = .ok ev) →
        Runs cfg previous d₀ (Run.endStep cfg step kind out.elapsed out')
          (Goes cfg previous d₀ fun r' =>
            Before cfg previous d₀ (step :: done) (c :: calls) r'.d) r₄ t₄ := by
      intro out' r₄ t₄ d₄ same agrees
      have d₁ : r₄.d = r₁.d := d₄.trans d₃
      exact endStep_runs before (d₁ ▸ moved) (same.calls.trans recorded) called.call
        (same.lost.trans lost₃) (d₄ ▸ kept₃.of_calls same.calls)
        (fun ev hev => earned ev (agrees ev hev)) other
    split
    next preliminary =>
      refine meets_bind.mpr (settlePreliminary_runs kept₃ fun out' r₄ t₄ d₄ same agrees => ?_)
      exact ends out' r₄ t₄ d₄ same agrees
    next => exact ends out.res r₃ t₃ rfl ⟨rfl, rfl, rfl, rfl⟩ fun _ h => h

/-- What a check is worth: a verdict that stands, by evidence that may be used. -/
theorem judge_ok {res : Except StepError CheckEvidence} {accepts : Bool} {ev : Option CheckEvidence}
    (h : Run.judge res accepts = .ok ev) :
    ∃ seen, res = .ok seen ∧ seen.validate = .ok () ∧ (seen.simulated = true → accepts = true) := by
  cases res with
  | error e => cases h
  | ok seen =>
    rw [Run.judge] at h
    split at h
    · cases h
    next allowed =>
      refine ⟨seen, rfl, ?_, fun simulated => ?_⟩
      · split at h
        next valid => exact valid
        next => cases h
      · cases accepts with
        | true => rfl
        | false => simp [simulated] at allowed

theorem inTime_of_returned (call : record.call = c) {v : c.Ret}
    (returned : record.returned = some ⟨c, .ok v⟩) (within : record.Within) : record.InTime := by
  subst call
  exact ⟨⟨v, returned⟩, within⟩

/-- A call that gives no evidence is earned when it returns in time. -/
theorem earned_of_silent (call : record.call = c) (budget : record.budgetMs = cfg.budgetFor c)
    {v : c.Ret} (returned : record.returned = some ⟨c, .ok v⟩) (within : record.Within)
    (silent : c ≠ .preliminaryCheck ∧ c ≠ .finalCheck) : record.Earned cfg := by
  refine ⟨call ▸ budget, inTime_of_returned call returned within, fun ev seen => ?_⟩
  rw [CallRecord.evidence, returned] at seen
  cases c with
  | preliminaryCheck => exact absurd rfl silent.1
  | finalCheck => exact absurd rfl silent.2
  | _ => cases seen

/-- A check is earned when it returns in time and its evidence stands. -/
theorem earned_of_check (budget : record.budgetMs = cfg.budgetFor record.call) {seen : CheckEvidence}
    (returned : record.call = .preliminaryCheck ∧ record.returned = some ⟨.preliminaryCheck, .ok seen⟩ ∨
      record.call = .finalCheck ∧ record.returned = some ⟨.finalCheck, .ok seen⟩)
    (within : record.Within) (valid : seen.validate = .ok ())
    (simulated : seen.simulated = true → record.accepts = some true) : record.Earned cfg := by
  have inTime : record.InTime := by
    rcases returned with ⟨call, returned⟩ | ⟨call, returned⟩ <;>
      exact inTime_of_returned call returned within
  refine ⟨budget, inTime, fun ev h => ?_⟩
  have same : ev = seen := by
    rcases returned with ⟨_, returned⟩ | ⟨_, returned⟩ <;>
    · rw [CallRecord.evidence, returned] at h
      cases h
      rfl
  exact same ▸ ⟨valid, simulated⟩

theorem plainStep_runs {step : Step} {kind : FailureKind}
    (before : Before cfg previous d₀ done calls r.d t) (new : step ∉ done)
    (which : c = .prepareSource ∨ c = .build)
    (budget : cfg.budgets.forStep step = cfg.budgetFor c) :
    Runs cfg previous d₀ (Run.preStep cfg step kind (Run.plainStep c))
      (Goes cfg previous d₀ fun r' => Before cfg previous d₀ (step :: done) (c :: calls) r'.d) r t := by
  have pre : c.isPreStep = true := by rcases which with rfl | rfl <;> rfl
  have silent : c ≠ .preliminaryCheck ∧ c ≠ .finalCheck := by
    rcases which with rfl | rfl <;> exact ⟨fun h => (nomatch h), fun h => (nomatch h)⟩
  refine preStep_runs before new pre budget mapped_once (fun _ _ _ saw => saw ▸ fatalIn_map) ?_
  intro record v res saw returned call budget within
  cases res with
  | ok w => exact earned_of_silent call budget returned within silent
  | error e => cases saw

theorem preliminaryStep_runs (before : Before cfg previous d₀ done calls r.d t)
    (new : Step.preliminaryCheck ∉ done) :
    Runs cfg previous d₀ (Run.preStep cfg .preliminaryCheck .preliminaryCheck Run.preliminaryStep)
      (Goes cfg previous d₀ fun r' =>
        Before cfg previous d₀ (.preliminaryCheck :: done) (.preliminaryCheck :: calls) r'.d) r t := by
  refine preStep_runs before new rfl rfl preliminaryStep_once ?_ ?_
  · rintro _ res _ ⟨a, _, rfl⟩
    exact fatalIn_judge
  · rintro record v res ⟨a, accepts, judged⟩ returned call budget within
    obtain ⟨seen, rfl, valid, simulated⟩ := judge_ok judged.symm
    refine earned_of_check (call.symm ▸ budget) (.inl ⟨call, returned⟩) within valid fun h => ?_
    rw [accepts, simulated h]

/-- The plan is pinned before anything is stopped or created. -/
theorem planAndPin_runs (before : Before cfg previous d₀ done calls r.d t)
    (new : Call.planRelease ∉ calls) :
    Runs cfg previous d₀ (Run.planAndPin cfg)
      (Goes cfg previous d₀ fun r' => Before cfg previous d₀ done (.planRelease :: calls) r'.d) r t := by
  have may : MayCall cfg previous d₀ .planRelease cfg.budgets.cutoverMs r.d t :=
    ⟨before.kept, trivial, fun h => (nomatch h), fun h => (nomatch h),
      not_succeeded_of_running before.status⟩
  refine meets_bind.mpr (call_runs callBackend_once may ?_)
  intro out r₁ t₁ record d₁ called lost ok _ kept
  -- Whatever was planned, the run goes on with the plan pinned.
  have pinned : ∀ planned (d₂ : Deployment) (t₂ : Trail), out.res = .ok planned →
      d₂ = { r.d with pinned := d₂.pinned } → (∀ config, planned = some config → d₂.pinned = some config) →
      t₁.Saved d₂ t₂ → Before cfg previous d₀ done (.planRelease :: calls) d₂ t₂ := by
    intro planned d₂ t₂ hres same config saved
    obtain ⟨_, rfl, returned, within⟩ := ok planned hres
    have records : t₂.calls = record :: t.calls := saved.calls.trans called.calls
    have earned : record.Earned cfg := earned_of_silent called.call called.budget
      returned within ⟨fun h => (nomatch h), fun h => (nomatch h)⟩
    have step : ∀ s, d₂.step s = r.d.step s := fun s => by rw [same]; rfl
    refine ⟨?_, saved.acked, saved.stored, saved.lost.trans (lost.trans before.kept_all), ?_, ?_, ?_,
      ?_, ?_, ?_, ?_, ?_⟩
    · refine Kept.of_calls ((d₁ ▸ kept).congr ?_ ?_ ?_ fun h => ?_) saved.calls
      · exact congrArg (·.id) same
      · exact congrArg (·.cutover) same
      · exact congrArg (·.recovery) same
      · exact (congrArg (·.status) same).symm.trans h
    · rw [records, List.map_cons, called.call, before.made]
    · intro c' mem
      rcases List.mem_cons.mp (records ▸ mem) with rfl | mem
      · exact earned
      · exact before.earned c' mem
    · intro c' mem plan config' seen
      rcases List.mem_cons.mp (records ▸ mem) with rfl | mem
      · rw [returned] at seen
        cases seen
        exact config config' rfl
      · refine absurd ?_ new
        rw [← before.made, ← plan]
        exact List.mem_map_of_mem mem
    · exact (congrArg (·.status) same).trans before.status
    · intro s mem; rw [step]; exact before.succeeded s mem
    · exact fun fresh => (congrArg (·.cutover) same).trans (before.cutover fresh)
    · exact fun fresh => (congrArg (·.recovery) same).trans (before.recovery fresh)
    · intro fresh s other; rw [step]; exact before.pending fresh s other
  split
  next config hres =>
    refine meets_bind.mpr (modify_runs fun r₂ d₂ => meets_bind.mpr ?_)
    have pin : r₂.d = { r.d with pinned := some config } := by rw [d₂, d₁]
    have kept₂ : Kept cfg previous d₀ r₂.d t₁.calls := pin ▸ (d₁ ▸ kept).congr rfl rfl rfl fun h => h
    refine save_runs kept₂ fun t₂ saved => ?_
    refine pinned (some config) r₂.d t₂ hres (by rw [pin]) (fun _ h => ?_) saved
    cases h; rw [pin]
  next hres =>
    refine pinned none r₁.d t₁ hres (by rw [d₁]) (fun _ h => (nomatch h)) ⟨rfl, ?_, ?_, rfl⟩
    · rw [called.acked, before.acked, d₁]
    · rw [called.stored, before.stored, d₁]
  next e hres =>
    refine meets_bind.mpr (describe_runs fun m r₂ d₂ => meets_bind.mpr ?_)
    have kept₂ : Kept cfg previous d₀ r₂.d t₁.calls := d₂ ▸ kept
    refine now_runs kept₂ fun ms t₂ same => meets_bind.mpr ?_
    have running : r₂.d.status = .running := by rw [d₂, d₁]; exact before.status
    exact (endFailed_runs (kept₂.of_calls same.calls) running).imp fun _ _ _ ended => ended

end

end Harpoon.Deploy
