import Harpoon.Laws.Calls

/-!
# The parts of a run

Specifications of the functions a run is made of. Each says what the function leaves of the
deployment and of the trail when it ends normally; when it gives up, `Stops` holds: what the calls say
of the deployment is true of it, and of a fresh deployment no transition was refused.
-/

namespace Harpoon.Deploy

open Interact Process

/-! ## What is kept -/

section

variable {cfg : RunConfig} {previous : Option PreviousRelease} {d₀ d d' : Deployment}
  {calls : List CallRecord}

/-- What `Kept` says depends on four fields. -/
theorem Kept.congr (kept : Kept cfg previous d₀ d calls) (id : d'.id = d.id)
    (cutover : d'.cutover = d.cutover) (recovery : d'.recovery = d.recovery)
    (won : d'.status = .succeeded → d.status = .succeeded) : Kept cfg previous d₀ d' calls where
  ended := kept.ended
  id := id.trans kept.id
  stopped := cutover ▸ kept.stopped
  restored := recovery ▸ kept.restored
  spent := recovery ▸ kept.spent
  won h := kept.won (won h)

theorem Kept.stepMoved {s : Step} {target : StepStatus} (kept : Kept cfg previous d₀ d calls)
    (moved : d.StepMoved s target d') : Kept cfg previous d₀ d' calls :=
  kept.congr moved.id_eq moved.cutover_eq moved.recovery_eq fun h => moved.status_eq.symm.trans h

/-- A move to another status, which is success only if it was won. -/
theorem Kept.statusMoved {target : DeploymentStatus} (kept : Kept cfg previous d₀ d calls)
    (moved : d.StatusMoved target d') (won : target = .succeeded → Won cfg previous calls) :
    Kept cfg previous d₀ d' calls where
  ended := kept.ended
  id := moved.id.trans kept.id
  stopped := moved.cutover ▸ kept.stopped
  restored := moved.recovery ▸ kept.restored
  spent := moved.recovery ▸ kept.spent
  won h := .inr (won (moved.status.symm.trans h))

/-- A change of the cutover and the recovery that undoes neither. -/
theorem Kept.cutoverMoved (kept : Kept cfg previous d₀ d calls) (same : d.SameButCutover d')
    (cutover : d.cutover.hasBegun = true → d'.cutover.hasBegun = true)
    (recovery : d.recovery.isSome = true → d'.recovery.isSome = true) :
    Kept cfg previous d₀ d' calls where
  ended := kept.ended
  id := same.id_eq.trans kept.id
  stopped h := cutover (kept.stopped h)
  restored h := recovery (kept.restored h)
  spent h := recovery (kept.spent h)
  won h := kept.won (same.status_eq.symm.trans h)

end

section

variable (cfg : RunConfig) (previous : Option PreviousRelease) (d₀ : Deployment)

/-- How a run gives up. -/
def Stops (e : EngineError) (r : Run) (t : Trail) : Prop :=
  (d₀.Fresh → e.notTransition) ∧ Kept cfg previous d₀ r.d t.calls

/-- How a run ends. -/
structure Ended (r : Run) (t : Trail) : Prop where
  kept : Kept cfg previous d₀ r.d t.calls
  terminal : r.d.status.isTerminal = true
  acked : t.acked = some r.d

/-- The code keeps the protocol, and ends with `post` or stops. -/
abbrev Runs {α : Type} (x : RunM α) (post : α → Run → Trail → Prop) (r : Run) (t : Trail) : Prop :=
  Meets Trail.see (Rule cfg previous d₀) x post (Stops cfg previous d₀) r t

/-- The call may be made. -/
structure MayCall (c : Call) (budgetMs : Nat) (d : Deployment) (t : Trail) : Prop where
  kept : Kept cfg previous d₀ d t.calls
  allowed : Rule cfg previous d₀ t (.call c budgetMs)
  stopped : c.isStopCurrent = true → d.cutover.hasBegun = true
  restored : c.isRestorePrevious = true → d.recovery.isSome = true
  open_ : d.status = .succeeded → d₀.status = .succeeded

end

section

variable {cfg : RunConfig} {previous : Option PreviousRelease} {d₀ : Deployment} {α : Type}
  {r : Run} {t t' : Trail} {c : Call} {budget : Nat} {record : CallRecord}

theorem MayCall.after (may : MayCall cfg previous d₀ c budget r.d t)
    (called : Called c budget t t' record) : Kept cfg previous d₀ r.d t'.calls where
  ended c' h := by
    rw [called.calls] at h
    rcases List.mem_cons.mp h with rfl | h
    · exact called.ended
    · exact may.kept.ended c' h
  id := may.kept.id
  stopped h := by
    rw [called.calls, made, List.any_cons, called.call] at h
    rcases Bool.or_eq_true_iff.mp h with h | h
    · exact may.stopped h
    · exact may.kept.stopped h
  restored h := by
    rw [called.calls, made, List.any_cons, called.call] at h
    rcases Bool.or_eq_true_iff.mp h with h | h
    · exact may.restored h
    · exact may.kept.restored h
  spent := may.kept.spent
  won h := .inl (may.open_ h)

/-! ## One operation -/

/-- The trails differ at most in the clock. -/
structure Trail.Same (t t' : Trail) : Prop where
  calls : t'.calls = t.calls
  acked : t'.acked = t.acked
  stored : t'.stored = t.stored
  lost : t'.lost = t.lost

/-- A snapshot was acknowledged in between. -/
structure Trail.Saved (d : Deployment) (t t' : Trail) : Prop where
  calls : t'.calls = t.calls
  acked : t'.acked = some d
  stored : t'.stored = some d
  lost : t'.lost = t.lost

theorem Kept.of_calls {d : Deployment} (kept : Kept cfg previous d₀ d t.calls)
    (calls : t'.calls = t.calls) : Kept cfg previous d₀ d t'.calls := calls ▸ kept

theorem now_runs {post : Nat → Run → Trail → Prop} (kept : Kept cfg previous d₀ r.d t.calls)
    (h : ∀ ms t', t.Same t' → post ms r t') : Runs cfg previous d₀ now post r t :=
  meets_ask.mpr ⟨trivial, fun ms => by
    rw [see_now_of_ended kept.ended]
    exact h ms _ ⟨rfl, rfl, rfl, rfl⟩⟩

theorem save_runs {post : Unit → Run → Trail → Prop} (kept : Kept cfg previous d₀ r.d t.calls)
    (h : ∀ t', t.Saved r.d t' → post () r t') : Runs cfg previous d₀ Run.save post r t := by
  refine meets_bind.mpr (meets_get.mpr (meets_bind.mpr (meets_ask.mpr ⟨kept, fun answer => ?_⟩)))
  cases answer with
  | acknowledged => exact h _ ⟨rfl, rfl, rfl, rfl⟩
  | failed e stored => exact ⟨fun _ => trivial, kept⟩

theorem change_runs {f : Deployment → Except TransitionError Deployment}
    {post : Unit → Run → Trail → Prop} (kept : Kept cfg previous d₀ r.d t.calls)
    (ok : ∀ r', f r.d = .ok r'.d → post () r' t)
    (error : d₀.Fresh → ∀ e, f r.d ≠ .error e) : Runs cfg previous d₀ (Run.change f) post r t := by
  refine meets_bind.mpr (meets_get.mpr ?_)
  cases changed : f r.d with
  | ok d => exact ok { r with d } changed
  | error e => exact ⟨fun fresh => absurd changed (error fresh e), kept⟩

/-- A step that is pending starts. -/
theorem startStep_runs {s : Step} {ms : Nat} {post : Unit → Run → Trail → Prop}
    (kept : Kept cfg previous d₀ r.d t.calls) (pending : d₀.Fresh → (r.d.step s).status = .pending)
    (h : ∀ r', r.d.StepMoved s .running r'.d → Kept cfg previous d₀ r'.d t.calls → post () r' t) :
    Runs cfg previous d₀ (Run.change (·.startStep s ms)) post r t := by
  refine change_runs kept (fun r' started => ?_) fun fresh e refused =>
    Deployment.startStep_error refused (pending fresh)
  have moved := (Deployment.startStep_ok started).2
  exact h r' moved (kept.stepMoved moved)

/-- A step that is running finishes. -/
theorem finishStep_runs {s : Step} {ok : Bool} {note : String} {ms : Nat}
    {post : Unit → Run → Trail → Prop} (kept : Kept cfg previous d₀ r.d t.calls)
    (running : (r.d.step s).status = .running)
    (h : ∀ r', r.d.StepMoved s (if ok then .succeeded else .failed) r'.d →
      Kept cfg previous d₀ r'.d t.calls → post () r' t) :
    Runs cfg previous d₀ (Run.change (·.finishStep s ok note ms)) post r t := by
  refine change_runs kept (fun r' finished => ?_) fun _ e refused =>
    Deployment.finishStep_error refused running
  have moved := (Deployment.finishStep_ok finished).2
  exact h r' moved (kept.stepMoved moved)

/-- The run is changed by a function. -/
theorem modify_runs {f : Run → Run} {post : Unit → Run → Trail → Prop}
    (h : ∀ r', r'.d = (f r).d → post () r' t) : Runs cfg previous d₀ (modify f) post r t :=
  h _ rfl

theorem warn_runs {post : Unit → Run → Trail → Prop} {warnings : List String}
    (h : ∀ r', r'.d = r.d → post () r' t) : Runs cfg previous d₀ (Run.warn warnings) post r t :=
  modify_runs h

theorem exec_runs {step : Step} {f : StepFn α}
    {sees : Except StepError α → Except StepError c.Ret → Option Bool → Prop}
    {post : Outcome α → Run → Trail → Prop} (once : CallsOnce cfg previous d₀ c f sees)
    (honest : ∀ got res accepts, sees got res accepts → fatalIn got = fatalIn res)
    (may : MayCall cfg previous d₀ c budget r.d t)
    (h : ∀ out r' t' record, r'.d = r.d → Called c budget t t' record → t'.lost = t.lost →
      Trusted sees out record → Kept cfg previous d₀ r'.d t'.calls → post out r' t') :
    Runs cfg previous d₀ (Run.exec cfg step budget f) post r t := by
  refine exec_meets once honest may.kept.ended may.allowed ?_ ?_
  · intro out r' t' record same called lost trusted
    exact h out r' t' record same called lost trusted (same ▸ may.after called)
  · intro j r' t' record same called
    exact ⟨fun _ => trivial, same ▸ may.after called⟩

/-- A call whose value is handed on, changed by `g`. -/
theorem call_runs {step : Step} {f : StepFn α} {g : c.Ret → α} {post : Outcome α → Run → Trail → Prop}
    (once : CallsOnce cfg previous d₀ c f (Plain g)) (may : MayCall cfg previous d₀ c budget r.d t)
    (h : ∀ out r' t' record, r'.d = r.d → Called c budget t t' record → t'.lost = t.lost →
      (∀ v, out.res = .ok v → ∃ w, v = g w ∧ record.returned = some ⟨c, .ok w⟩ ∧ record.Within) →
      (∀ e, out.res = .error e → ¬ record.InTime) →
      Kept cfg previous d₀ r'.d t'.calls → post out r' t') :
    Runs cfg previous d₀ (Run.exec cfg step budget f) post r t := by
  refine exec_runs once (fun got res _ saw => saw ▸ fatalIn_map) may ?_
  rintro out r' t' record same called lost ⟨got, res, saw, returned, ok, error⟩ kept
  refine h out r' t' record same called lost (fun v hv => ?_) (fun e he inTime => ?_) kept
  · obtain ⟨rfl, within⟩ := ok v hv
    cases res with
    | ok w => cases saw; exact ⟨w, rfl, returned, within⟩
    | error e => cases saw
  · obtain ⟨⟨v, hv⟩, within⟩ := inTime
    rcases error e he with rfl | late
    · rw [returned] at hv
      cases hv
      cases saw
    · exact late within

/-! ## Messages and the ledger -/

/-- The message of an error says what was seen, and changes only what the run keeps as evidence. -/
theorem describe_runs {step : Step} {e : StepError} {elapsed : Nat}
    {post : String → Run → Trail → Prop} (h : ∀ m r', r'.d = r.d → post m r' t) :
    Runs cfg previous d₀ (Run.describe cfg step e elapsed budget) post r t := by
  unfold Run.describe
  cases e.evidence with
  | none => exact h _ _ rfl
  | some ev => exact h _ _ rfl

theorem failure_runs {step : Step} {e : StepError} {elapsed : Nat}
    {post : String × Bool → Run → Trail → Prop} (h : ∀ m r', r'.d = r.d → post m r' t) :
    Runs cfg previous d₀ (Run.failure cfg step e elapsed budget) post r t :=
  meets_bind.mpr (describe_runs fun _ r' same => h _ r' same)

variable (cfg previous d₀) in
/-- Cleanup code moves only the clock, unless a write is lost. -/
theorem cleanup_simulates (ended : ∀ c ∈ t.calls, c.endedMs.isSome = true)
    {writes : LedgerRecord → Prop} :
    Simulates lose (fun _ => CleanupOp writes) Trail.see (Rule cfg previous d₀) fun lost t' =>
      t'.calls = t.calls ∧ t'.acked = t.acked ∧ t'.stored = t.stored ∧
        (lost = false → t'.lost = t.lost) := by
  refine ⟨fun _ t' op _ allowed => ?_, ?_⟩
  · cases op with
    | record _ | nowMs | listResources | removeResource _ => trivial
    | _ => cases allowed
  · rintro lost t' ⟨op, answer⟩ ⟨calls, acked, stored, kept⟩ allowed
    cases op with
    | nowMs =>
      rw [see_now_of_ended (calls ▸ ended)]
      exact ⟨calls, acked, stored, kept⟩
    | record r =>
      cases answer with
      | acknowledged => exact ⟨calls, acked, stored, kept⟩
      | failed e st =>
        rw [show t'.see ⟨.record r, .failed e st⟩ = if t'.inCall then t' else { t' with lost := true }
          from rfl]
        split <;> exact ⟨calls, acked, stored, fun h => (nomatch h)⟩
    | listResources | removeResource _ => exact ⟨calls, acked, stored, kept⟩
    | _ => cases allowed

/-- Cleanup code on the run's ledger. -/
theorem onLedger_runs {writes : LedgerRecord → Prop} {x : Engine Ledger EngineError α}
    {post : α → Run → Trail → Prop} (cleans : Cleans writes x)
    (kept : Kept cfg previous d₀ r.d t.calls)
    (h : ∀ v r' t', r'.d = r.d → t.Same t' → post v r' t') :
    Runs cfg previous d₀ (Run.onLedger x) post r t := by
  have ran := cleans.simulate (r := r.ledger) (cleanup_simulates cfg previous d₀ kept.ended)
    rfl ⟨rfl, rfl, rfl, fun _ => rfl⟩
  refine meets_zoom.mpr (ran.mono ?_ ?_)
  · rintro v l t' ⟨lost, none, calls, acked, stored, same⟩
    exact h v _ t' rfl ⟨calls, acked, stored, same none⟩
  · rintro e l t' ⟨notTransition, lost, calls, _⟩
    exact ⟨fun _ => notTransition, calls ▸ kept⟩

theorem failTargets_cleans {writes : LedgerRecord → Prop} {why : String} {actions : List Action}
    (allowed : ∀ entry r, About entry r → writes r) :
    Cleans writes (Run.failTargets why actions) := by
  induction actions with
  | nil => exact .pure
  | cons a actions ih =>
    cases a with
    | markAbsent entry | adopt entry _ | remove entry _ _ => exact bracket_cleans (allowed entry) ih
    | releaseLease _ | refuse _ _ | reportOnly _ _ =>
      exact (executeActions_cleans fun _ _ entry _ => allowed entry).bind fun _ => ih

theorem releasePreliminary_cleans (dep : DeploymentId) (firstNew : Nat) :
    Cleans (fun r => r.isIntent = false) (Run.releasePreliminary dep firstNew) := by
  refine Keeps.get.bind fun l => ?_
  dsimp only
  split
  · exact .pure
  · refine listResources_cleans.bind fun listed => Keeps.bind ?_ fun _ => Keeps.get.bind fun _ => .pure
    cases listed with
    | ok observed =>
      exact Keeps.get.bind fun l => (executeActions_cleans fun _ _ _ _ _ h => h.2).bind fun _ => .pure
    | error e => exact Keeps.get.bind fun l => failTargets_cleans fun _ _ h => h.2

theorem settlePreliminary_runs {β : Type} {firstNew : Nat} {res : Except StepError β}
    {post : Except StepError β → Run → Trail → Prop} (kept : Kept cfg previous d₀ r.d t.calls)
    (h : ∀ res' r' t', r'.d = r.d → t.Same t' → (∀ v, res' = .ok v → res = .ok v) → post res' r' t') :
    Runs cfg previous d₀ (Run.settlePreliminary firstNew res) post r t := by
  refine meets_bind.mpr (meets_get.mpr (meets_bind.mpr ?_))
  refine onLedger_runs (releasePreliminary_cleans _ _) kept fun stuck r' t' same trail => ?_
  cases stuck with
  | none => exact h res r' t' same trail fun _ => id
  | some problem =>
    cases res with
    | ok v => exact h _ r' t' same trail fun _ h => (nomatch h)
    | error e => exact h (.error e) _ t' same trail fun _ => id

end

end Harpoon.Deploy
