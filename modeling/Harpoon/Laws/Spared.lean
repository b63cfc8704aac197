import Harpoon.Laws.Upheld

/-!
# A run does not interrupt its deployment

Only a start marks a deployment interrupted. A run, wherever it is cut short, has written no snapshot that says so.
-/

namespace Harpoon.Deploy

open Interact Process

/-- Whether no snapshot so far says that the deployment was interrupted. -/
def unmarked (b : Bool) : Event EngineSig → Bool
  | ⟨.persist d, _⟩ => b && d.status ≠ .interrupted
  | _ => b

/-- The deployment is not interrupted, and no snapshot said so. -/
structure Untold (r : Run) (b : Bool) : Prop where
  now : r.d.status ≠ .interrupted
  told : b = true

abbrev Spares {α : Type} (x : RunM α) : Prop := x.Stable unmarked (fun _ _ => True) Untold

section

variable {cfg : RunConfig} {previous : Option PreviousRelease} {α : Type}

/-- While the deployment is not interrupted, no snapshot says so. -/
theorem upholds_unmarked (cfg : RunConfig) (previous : Option PreviousRelease) :
    Upholds cfg previous unmarked (fun _ _ => True) (fun _ _ => True) (fun _ _ => True)
      fun d _ b => d.status ≠ .interrupted → b = true where
  quiet {_ _ _ op} isQuiet inv := by
    refine ⟨trivial, fun _ => ?_⟩
    cases op with
    | nowMs | persist _ | record _ | call _ _ | pinnedConfig => cases isQuiet
    | _ => exact inv
  clock inv := ⟨trivial, fun _ => ⟨inv, trivial⟩⟩
  call _ _ inv := ⟨trivial, fun _ => inv⟩
  record _ _ inv := ⟨trivial, inv, fun _ _ => inv⟩
  persist inv := ⟨trivial, fun _ spared => by simpa [unmarked, inv spared] using spared⟩
  edit running _ inv := fun _ => inv fun marked => by rw [marked] at running; cases running
  planned := trivial
  actual inv := ⟨trivial, fun _ => ⟨inv, fun _ _ => trivial⟩⟩
  keeps _ := trivial

theorem rests_spares {x : RunM α}
    (rests : ∀ d, Rests unmarked (fun _ _ => True) (fun d _ b => d.status ≠ .interrupted → b = true) d x) : Spares x := by
  intro r b untold
  have kept : ∀ {r' b'}, Steady (fun d _ b => d.status ≠ .interrupted → b = true) r.d r' b' → Untold r' b' :=
    fun steady => ⟨steady.same ▸ untold.now, steady.inv untold.now⟩
  exact (rests r.d r b ⟨rfl, fun _ => untold.told⟩).mono (fun _ _ _ => kept) fun _ _ _ => kept

theorem notes_spares {x : RunM α} (notes : Notes unmarked (fun _ _ => True) x) : Spares x :=
  rests_spares fun _ => notes.rests

theorem now_spares : Spares (now : RunM Nat) :=
  .perform fun _ _ untold => ⟨trivial, fun _ => untold⟩

theorem save_spares : Spares Run.save := by
  intro r b untold
  refine meets_bind.mpr (meets_get.mpr (meets_bind.mpr (meets_ask.mpr ⟨trivial, fun answer => ?_⟩)))
  have after : Untold r (unmarked b ⟨.persist r.d, answer⟩) :=
    ⟨untold.now, by simpa [unmarked, untold.told] using untold.now⟩
  cases answer with
  | acknowledged => exact after
  | failed e stored => exact after

theorem edit_spares {f : Run → Run} (same : ∀ r, (f r).d.status = r.d.status) : Spares (modify f) :=
  .modify fun r _ untold => ⟨fun marked => untold.now ((same r).symm.trans marked), untold.told⟩

theorem change_spares {f : Deployment → Except TransitionError Deployment}
    (spares : ∀ d d', f d = .ok d' → d.status ≠ .interrupted → d'.status ≠ .interrupted) : Spares (Run.change f) := by
  intro r b untold
  refine meets_bind.mpr (meets_get.mpr ?_)
  split
  next d' changed => exact ⟨spares _ _ changed untold.now, untold.told⟩
  next => exact untold

theorem keep_spares {f : Deployment → Except TransitionError Deployment}
    (status : ∀ d d', f d = .ok d' → d'.status = d.status) : Spares (Run.change f) :=
  change_spares fun d d' changed spared marked => spared ((status d d' changed).symm.trans marked)

theorem start_spares {step : Step} {ms : Nat} : Spares (Run.change (·.startStep step ms)) :=
  keep_spares fun _ _ started => (Deployment.startStep_ok started).2.status_eq

theorem finish_spares {step : Step} {ok : Bool} {note : String} {ms : Nat} :
    Spares (Run.change (·.finishStep step ok note ms)) :=
  keep_spares fun _ _ finished => (Deployment.finishStep_ok finished).2.status_eq

theorem move_spares {target : DeploymentStatus} {ms : Nat} (other : target ≠ .interrupted) :
    Spares (Run.change (·.transition target ms)) :=
  change_spares fun _ _ moved _ marked => other ((Deployment.transition_ok moved).2.status.symm.trans marked)

theorem endNow_spares {target : DeploymentStatus} (other : target ≠ .interrupted) :
    Spares (do let at_ ← now; Run.change (·.transition target at_); Run.save) :=
  now_spares.bind fun _ => (move_spares other).bind fun _ => save_spares

theorem endFailed_spares {step : Step} {kind : FailureKind} {message : String} {timedOut : Bool} {ms : Nat} :
    Spares (Run.endFailed step kind message timedOut ms) :=
  (edit_spares (by intro; rfl)).bind fun _ => (move_spares (by decide)).bind fun _ => save_spares

theorem endStep_spares {step : Step} {kind : FailureKind} {elapsed : Nat}
    {res : Except StepError (Option CheckEvidence)} : Spares (Run.endStep cfg step kind elapsed res) := by
  cases res with
  | ok ev =>
    refine now_spares.bind fun _ => (notes_spares keepEvidence_notes).bind fun _ => finish_spares.bind fun _ => ?_
    refine (edit_spares fun r => ?_).bind fun _ => save_spares.bind fun _ => .pure
    unfold Run.releaseOf
    split <;> rfl
  | error e =>
    refine now_spares.bind fun _ => (notes_spares describe_notes).bind fun _ => finish_spares.bind fun _ => ?_
    exact endFailed_spares.bind fun _ => .pure

theorem preStep_spares {step : Step} {kind : FailureKind} {f : StepFn (Option CheckEvidence)}
    (calls : Spares (Run.exec cfg step (cfg.budgets.forStep step) f)) : Spares (Run.preStep cfg step kind f) := by
  refine (Stable.perform fun _ _ untold => ⟨trivial, fun _ => untold⟩).bind fun cancel => ?_
  split
  · exact (endNow_spares (by decide)).bind fun _ => .pure
  · refine now_spares.bind fun _ => start_spares.bind fun _ => save_spares.bind fun _ => Stable.get.bind fun _ => ?_
    refine calls.bind fun out => ?_
    split
    · exact (rests_spares fun _ => settlePreliminary_rests (upholds_unmarked cfg none)).bind fun _ => endStep_spares
    · exact endStep_spares

theorem planAndPin_spares : Spares (Run.planAndPin cfg) := by
  refine (rests_spares fun _ => plain_rests (upholds_unmarked cfg none) fun _ h => by cases h).bind fun out => ?_
  cases out.res with
  | ok config =>
    cases config with
    | some config => exact (edit_spares (by intro; rfl)).bind fun _ => save_spares.bind fun _ => .pure
    | none => exact .pure
  | error e =>
    refine (notes_spares describe_notes).bind fun _ => now_spares.bind fun _ => ?_
    exact endFailed_spares.bind fun _ => .pure

theorem repin_spares : Spares Run.repin := by
  refine (Stable.perform fun _ _ untold => ⟨trivial, fun _ => untold⟩).bind fun pinned => ?_
  cases pinned with
  | none => exact .pure
  | some actual =>
    refine Stable.get.bind fun r => ?_
    split
    · exact (edit_spares (by intro; rfl)).bind fun _ => save_spares
    · exact .pure

theorem failAfterCutover_spares {step : Step} {kind : FailureKind} {message : String} {timedOut newStarted : Bool}
    {budget : Nat} : Spares (Run.failAfterCutover cfg previous step kind message timedOut newStarted budget) := by
  refine now_spares.bind fun _ => finish_spares.bind fun _ => (edit_spares (by intro; rfl)).bind fun _ => ?_
  refine (keep_spares fun _ _ failed => (Deployment.failCutover_ok failed).2.1.status_eq).bind fun _ => ?_
  refine start_spares.bind fun _ => ?_
  refine (keep_spares fun _ _ started => (Deployment.startRecovery_ok started).2.1.status_eq).bind fun _ => ?_
  refine save_spares.bind fun _ => ?_
  refine (rests_spares fun _ => freeAddress_rests (upholds_unmarked cfg previous)).bind fun _ => ?_
  refine (rests_spares fun _ => restorePhase_rests (upholds_unmarked cfg previous)).bind fun _ => now_spares.bind fun _ => ?_
  refine (keep_spares fun _ _ finished => (Deployment.finishRecovery_ok finished).1.status_eq).bind fun _ => ?_
  exact finish_spares.bind fun _ => (move_spares (by decide)).bind fun _ => save_spares

theorem firstDeployment_spares : Spares (Run.firstDeployment cfg) := by
  refine planAndPin_spares.bind fun go => ?_
  split
  · refine (keep_spares fun _ _ unneeded => (Deployment.cutoverNotRequired_ok unneeded).2.1.status_eq).bind fun _ => ?_
    refine now_spares.bind fun _ => start_spares.bind fun _ => save_spares.bind fun _ => ?_
    have starts := fun d => cutoverCall_rests (upholds_unmarked cfg none) (c := .startNew) (d := d) fun _ h => by cases h
    refine (rests_spares starts).bind fun started => now_spares.bind fun _ => ?_
    cases started with
    | error m => exact finish_spares.bind fun _ => endFailed_spares
    | ok _ =>
      refine finish_spares.bind fun _ => start_spares.bind fun _ => repin_spares.bind fun _ => save_spares.bind fun _ => ?_
      refine (rests_spares fun _ => finalCheck_rests (upholds_unmarked cfg none)).bind fun checked => now_spares.bind fun _ => ?_
      cases checked with
      | ok note => exact finish_spares.bind fun _ => endNow_spares (by decide)
      | error m =>
        refine finish_spares.bind fun _ => (edit_spares (by intro; rfl)).bind fun _ => ?_
        refine (rests_spares fun _ => stopFailedNewRelease_rests (upholds_unmarked cfg none)).bind fun _ => ?_
        exact endNow_spares (by decide)
  · exact .pure

theorem cutOver_spares {prev : PreviousRelease} : Spares (Run.cutOver cfg prev) := by
  refine now_spares.bind fun _ => (edit_spares (by intro; rfl)).bind fun _ => ?_
  refine (keep_spares fun _ _ begun => (Deployment.beginCutover_ok begun).2.1.status_eq).bind fun _ => ?_
  refine start_spares.bind fun _ => save_spares.bind fun _ => ?_
  have stops := fun d => cutoverCall_rests (upholds_unmarked cfg (some prev)) (c := .stopCurrent prev) (d := d) fun _ h => h
  refine (rests_spares stops).bind fun stopped => ?_
  cases stopped with
  | error m => exact failAfterCutover_spares
  | ok _ =>
  have starts := fun d => cutoverCall_rests (upholds_unmarked cfg (some prev)) (c := .startNew) (d := d) fun _ h => by cases h
  refine (rests_spares starts).bind fun started => ?_
  cases started with
  | error m => exact failAfterCutover_spares
  | ok _ =>
  refine repin_spares.bind fun _ => now_spares.bind fun _ => finish_spares.bind fun _ => start_spares.bind fun _ => ?_
  refine save_spares.bind fun _ => ?_
  refine (rests_spares fun _ => finalCheck_rests (upholds_unmarked cfg none)).bind fun checked => ?_
  cases checked with
  | error m => exact failAfterCutover_spares
  | ok note =>
    refine now_spares.bind fun _ => finish_spares.bind fun _ => ?_
    refine (keep_spares fun _ _ confirmed => (Deployment.confirmCutover_ok confirmed).1.status_eq).bind fun _ => ?_
    exact endNow_spares (by decide)

theorem replacement_spares {prev : PreviousRelease} : Spares (Run.replacement cfg prev) := by
  refine Stable.get.bind fun _ => ?_
  refine (rests_spares fun _ => whyNotCutOver_rests (upholds_unmarked cfg none)).bind fun why => ?_
  cases why with
  | some why => exact (edit_spares (by intro; rfl)).bind fun _ => endNow_spares (by decide)
  | none =>
    refine planAndPin_spares.bind fun go => ?_
    split
    · exact cutOver_spares
    · exact .pure

theorem drive_spares : Spares (Run.drive cfg previous) := by
  refine now_spares.bind fun _ => (move_spares (by decide)).bind fun _ => save_spares.bind fun _ => ?_
  have plain : ∀ {step c}, c.previous? = none → Spares (Run.exec cfg step (cfg.budgets.forStep step) (Run.plainStep c)) :=
    fun alone => rests_spares fun _ => silent_rests (upholds_unmarked cfg none) fun _ h => by rw [alone] at h; cases h
  refine (preStep_spares (plain rfl)).bind fun go => ?_
  split
  · refine (preStep_spares (plain rfl)).bind fun go => ?_
    split
    · refine (preStep_spares (rests_spares fun _ => preliminaryStep_rests (upholds_unmarked cfg none))).bind fun go => ?_
      split
      · refine (Stable.perform fun _ _ untold => ⟨trivial, fun _ => untold⟩).bind fun cancel => ?_
        split
        · exact endNow_spares (by decide)
        · cases previous with
          | none => exact firstDeployment_spares
          | some prev => exact replacement_spares
      · exact .pure
    · exact .pure
  · exact .pure

theorem finish_run_spares (cfg : RunConfig) : Spares Run.finish := by
  have cleaned : Spares Run.cleanup := by
    intro r b untold
    have keeps : Steady (fun d _ b => d.status ≠ .interrupted → b = true) r.d r b := ⟨rfl, fun _ => untold.told⟩
    have kept : ∀ {r' b'}, Steady (fun d _ b => d.status ≠ .interrupted → b = true) r.d r' b' → Untold r' b' :=
      fun steady => ⟨steady.same ▸ untold.now, steady.inv untold.now⟩
    refine meets_bind.mpr (meets_get.mpr ?_)
    split
    · exact untold
    · split
      · refine meets_bind.mpr ((onLedger_rests (reconcile_tidies (upholds_unmarked cfg none)) r b keeps).mono ?_ ?_)
        · exact fun _ _ _ steady => kept ⟨steady.same, steady.inv⟩
        · exact fun _ _ _ steady => kept steady
      · exact untold
  exact cleaned.bind fun _ => Stable.get.bind fun _ => .pure

end

end Harpoon.Deploy


namespace Harpoon.Deploy

open Interact Process

section

variable {cfg : RunConfig} {d : Deployment} {ctx : Context} {h : History EngineSig}

theorem answered : ∀ op : EngineSig.Op, Nonempty (EngineSig.Answer op) := by
  intro op
  cases op with
  | nowMs => exact ⟨(0 : Nat)⟩
  | cancel | confirm _ | acceptsSimulatedEvidence | supportsCutover => exact ⟨true⟩
  | persist _ | record _ => exact ⟨Written.acknowledged⟩
  | call _ _ => exact ⟨Program.done ()⟩
  | result _ | listResources | removeResource _ => exact ⟨.error (.new "")⟩
  | pinnedConfig => exact ⟨none⟩

theorem unmarked_before {b : Bool} {e : Event EngineSig} (after : unmarked b e = true) : b = true := by
  obtain ⟨op, answer⟩ := e
  cases op with
  | persist d => exact (Bool.and_eq_true _ _ ▸ after).1
  | _ => exact after

theorem seen_unmarked {b : Bool} (told : h.seen unmarked b = true) :
    b = true ∧ ∀ e ∈ h, ∀ x, e.op = .persist x → x.status ≠ .interrupted := by
  induction h generalizing b with
  | nil => exact ⟨told, fun e mem => by cases mem⟩
  | cons e h ih =>
    obtain ⟨here, later⟩ := ih told
    refine ⟨unmarked_before here, fun e' mem x persist => ?_⟩
    rcases List.mem_cons.mp mem with rfl | mem
    · obtain ⟨op, answer⟩ := e'
      cases persist
      exact of_decide_eq_true (Bool.and_eq_true _ _ ▸ here).2
    · exact later e' mem x persist

/-- No snapshot of a run says that its deployment was interrupted. -/
theorem run_spares {q : Program EngineSig (Except EngineError Report × Run)} (fresh : d.Fresh)
    (follows : Program.Follows (runDeploymentConfirmed d ctx cfg) h q) :
    ∀ e ∈ h, ∀ x, e.op = .persist x → x.status ≠ .interrupted := by
  have start : Untold (Run.start cfg d) true := by
    refine ⟨fun marked => ?_, rfl⟩
    have open_ := fresh.status
    rw [show d.status = .interrupted from marked] at open_
    cases open_
  have upheld : Spares (do Run.drive cfg (previousOf ctx cfg); Run.finish) := drive_spares.bind fun _ => finish_run_spares cfg
  have told : h.seen unmarked true = true := by
    refine (upheld _ _ start).throughout answered (I := (· = true)) ?_ (fun _ _ => unmarked_before) follows
    rintro ⟨res, r⟩ b after
    cases res with
    | ok _ => exact after.told
    | error _ => exact after.told
  exact (seen_unmarked told).2

end

end Harpoon.Deploy
