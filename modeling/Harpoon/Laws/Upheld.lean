import Harpoon.Deploy.Engine
import Harpoon.Laws.Reconcile
import Harpoon.Laws.Transitions

/-!
# What every step of a run upholds, the run upholds

A run edits its deployment, writes ledger records of it and calls the backend. `Upholds` lists these steps,
for an invariant of the deployment, of the ledger and of the summary of a monitor; a run, and an explicit
recovery, uphold what each of their steps does, wherever they are cut short.
-/

namespace Harpoon.Deploy

open Interact Process

/-! ## The steps -/

/-- The record is about this deployment. -/
def LedgerRecord.Of (d : Deployment) : LedgerRecord → Prop
  | .intent _ app dep _ _ => dep = d.id ∧ app = d.applicationId
  | r => r.deployment = d.id

/-- The release that a call is about, beside the new one. -/
def Call.previous? : Call → Option PreviousRelease
  | .stopCurrent prev | .restoreBlockers prev | .restorePrevious prev _ => some prev
  | _ => none

/-- Operations whose answer changes neither the deployment nor the ledger. -/
def EngineOp.IsQuiet : EngineOp → Prop
  | .nowMs | .persist _ | .record _ | .call _ _ | .pinnedConfig => False
  | _ => True

/-- One edit that a run makes of its deployment. `Time` holds of the times it may write, and `Pin` of the
configurations. -/
inductive Edit (cfg : RunConfig) (previous : Option PreviousRelease) (Time : Nat → Prop) (Pin : ReleaseConfig → Prop) :
    Deployment → Deployment → Prop where
  | move {d d' : Deployment} {target : DeploymentStatus} {ms : Nat} (time : Time ms)
      (moved : d.transition target ms = .ok d') : Edit cfg previous Time Pin d d'
  | start {d d' : Deployment} {s : Step} {ms : Nat} (time : Time ms) (started : d.startStep s ms = .ok d') :
      Edit cfg previous Time Pin d d'
  | finish {d d' : Deployment} {s : Step} {ok : Bool} {note : String} {ms : Nat} (time : Time ms)
      (finished : d.finishStep s ok note ms = .ok d') : Edit cfg previous Time Pin d d'
  | fail {d : Deployment} (f : Failure) : Edit cfg previous Time Pin d { d with failure := some f }
  | build {d : Deployment} : Edit cfg previous Time Pin d { d with release := some (.fromDeployment d.id) }
  | pin {d : Deployment} {config : ReleaseConfig} (pin : Pin config) :
      Edit cfg previous Time Pin d { d with pinned := some config }
  | replace {d : Deployment} {prev : PreviousRelease} (same : previous = some prev) :
      Edit cfg previous Time Pin d { d with replaces := some prev.release }
  | begin {d d' : Deployment} {prev : PreviousRelease} {ms : Nat} (same : previous = some prev) (time : Time ms)
      (replaces : d.replaces = some prev.release) (begun : d.beginCutover ms = .ok d') :
      Edit cfg previous Time Pin d d'
  | need {d d' : Deployment} (unneeded : d.cutoverNotRequired = .ok d') : Edit cfg previous Time Pin d d'
  | confirm {d d' : Deployment} {ms : Nat} (time : Time ms) (confirmed : d.confirmCutover ms = .ok d') :
      Edit cfg previous Time Pin d d'
  | failCutover {d d' : Deployment} {ms : Nat} (time : Time ms) (failed : d.failCutover ms = .ok d') :
      Edit cfg previous Time Pin d d'
  | recover {d d' : Deployment} {ms : Nat} (time : Time ms)
      (started : d.startRecovery cfg.policy.restoreBudgetMs ms = .ok d') : Edit cfg previous Time Pin d d'
  | recovered {d d' : Deployment} {outcome : RecoveryOutcome} {ms : Nat} (time : Time ms)
      (finished : d.finishRecovery outcome ms = .ok d') : Edit cfg previous Time Pin d d'

/-- What each step upholds, of the deployment, of the ledger and of the summary. -/
structure Upholds {σ : Type} (cfg : RunConfig) (previous : Option PreviousRelease) (see : σ → Event EngineSig → σ)
    (rule : σ → EngineOp → Prop) (Time : σ → Nat → Prop) (Pin : σ → ReleaseConfig → Prop)
    (I : Deployment → Ledger → σ → Prop) : Prop where
  quiet {d : Deployment} {l : Ledger} {s : σ} {op : EngineOp} (isQuiet : op.IsQuiet) (inv : I d l s) :
    rule s op ∧ ∀ answer, I d l (see s ⟨op, answer⟩)
  clock {d : Deployment} {l : Ledger} {s : σ} (inv : I d l s) :
    rule s .nowMs ∧ ∀ ms, I d l (see s ⟨.nowMs, ms⟩) ∧ Time (see s ⟨.nowMs, ms⟩) ms
  call {d : Deployment} {l : Ledger} {s : σ} {c : Call} (budgetMs : Nat)
    (which : ∀ prev, c.previous? = some prev → previous = some prev) (inv : I d l s) :
    rule s (.call c budgetMs) ∧ ∀ script, I d l (see s ⟨.call c budgetMs, script⟩)
  record {d : Deployment} {l l' : Ledger} {s : σ} {r : LedgerRecord} (of : r.Of d) (applies : l.apply r = (.ok (), l'))
    (inv : I d l s) : rule s (.record r) ∧ I d l' (see s ⟨.record r, .acknowledged⟩) ∧
      ∀ e stored, I d l (see s ⟨.record r, .failed e stored⟩)
  persist {d : Deployment} {l : Ledger} {s : σ} (inv : I d l s) :
    rule s (.persist d) ∧ ∀ answer, I d l (see s ⟨.persist d, answer⟩)
  edit {d d' : Deployment} {l : Ledger} {s : σ} (running : d.status.isTerminal = false)
    (edit : Edit cfg previous (Time s) (Pin s) d d') (inv : I d l s) : I d' l s
  planned {s : σ} {config : ReleaseConfig} : Pin (see s ⟨.result .planRelease, .ok (some config)⟩) config
  actual {d : Deployment} {l : Ledger} {s : σ} (inv : I d l s) :
    rule s .pinnedConfig ∧ ∀ answer, I d l (see s ⟨.pinnedConfig, answer⟩) ∧
      ∀ config, answer = some config → Pin (see s ⟨.pinnedConfig, answer⟩) config
  keeps {s : σ} {config : ReleaseConfig} {ms : Nat} (pin : Pin s config) : Pin (see s ⟨.nowMs, ms⟩) config

section

variable {σ : Type} {cfg : RunConfig} {previous : Option PreviousRelease} {see : σ → Event EngineSig → σ}
  {rule : σ → EngineOp → Prop} {Time : σ → Nat → Prop} {Pin : σ → ReleaseConfig → Prop}
  {I : Deployment → Ledger → σ → Prop} (up : Upholds cfg previous see rule Time Pin I)
  {d : Deployment} {l : Ledger} {s : σ} {ε α : Type}

/-! ## One call -/

/-- What a `StepIo` of the deployment upholds. -/
structure Handed (I : Deployment → Ledger → σ → Prop) (d : Deployment) (io : StepIo) (s : σ) : Prop where
  app : io.app = d.applicationId
  dep : io.dep = d.id
  inv : I d io.ledger s

abbrev Handles (see : σ → Event EngineSig → σ) (rule : σ → EngineOp → Prop) (I : Deployment → Ledger → σ → Prop)
    (d : Deployment) (x : Engine StepIo ε α) : Prop := x.Stable see rule (Handed I d)

include up

theorem now_handles : Handles see rule I d (now : Engine StepIo ε Nat) :=
  Stable.perform fun _ _ handed =>
    ⟨(up.clock handed.inv).1, fun ms => ⟨handed.app, handed.dep, ((up.clock handed.inv).2 ms).1⟩⟩

theorem write_handles {r : LedgerRecord} (of : r.Of d) : Handles see rule I d (StepIo.write r) := by
  intro io s handed
  refine meets_bind.mpr (meets_get.mpr ?_)
  split
  · exact handed
  next next applies =>
    obtain ⟨allowed, taken, lost⟩ := up.record of applies handed.inv
    refine meets_bind.mpr (meets_ask.mpr ⟨allowed, fun answer => ?_⟩)
    cases answer with
    | acknowledged => exact ⟨handed.app, handed.dep, taken⟩
    | failed e stored => exact ⟨handed.app, handed.dep, lost e stored⟩

/-- A record that is written from what the `StepIo` holds. -/
theorem writeNow_handles {r : Nat → StepIo → LedgerRecord} (of : ∀ ms io, io.app = d.applicationId → io.dep = d.id →
    (r ms io).Of d) : Handles see rule I d (do let atMs ← now; let io ← get; StepIo.write (r atMs io)) := by
  refine (now_handles up).bind fun ms => ?_
  intro io s handed
  exact meets_bind.mpr (meets_get.mpr (write_handles up (of ms io handed.app handed.dep) io s handed))

theorem intend_handles {key : ResourceKey} {disposition : Disposition} :
    Handles see rule I d (StepIo.intend key disposition) := by
  refine (now_handles up).bind fun ms => ?_
  intro io s handed
  have of : (LedgerRecord.intent key io.app io.dep disposition ms).Of d := ⟨handed.dep, handed.app⟩
  refine meets_bind.mpr (meets_get.mpr (meets_bind.mpr ((write_handles up of io s handed).imp ?_)))
  exact fun _ _ _ handed => handed

theorem receipt_handles {intent : Intent} {id : String} : Handles see rule I d (StepIo.receipt intent id) :=
  writeNow_handles up fun _ _ _ dep => dep

theorem cleanupAttempt_handles {key : ResourceKey} : Handles see rule I d (StepIo.cleanupAttempt key) :=
  writeNow_handles up fun _ _ _ dep => dep

theorem cleanupResult_handles {key : ResourceKey} {outcome : CleanupOutcome} :
    Handles see rule I d (StepIo.cleanupResult key outcome) := writeNow_handles up fun _ _ _ dep => dep

theorem answer_handles (op : IoOp) : Handles see rule I d (StepIo.answer op : Engine StepIo ε op.Answer) := by
  cases op with
  | intend key disposition => exact (intend_handles up).attempt
  | receipt intent id => exact (receipt_handles up).attempt
  | cleanupAttempt key => exact (cleanupAttempt_handles up).attempt
  | cleanupResult key outcome => exact (cleanupResult_handles up).attempt
  | leasePort hostPort =>
    exact ((intend_handles up).bind fun _ => (receipt_handles up).bind fun _ => .pure).attempt
  | releaseLease hostPort =>
    exact ((cleanupAttempt_handles up).bind fun _ => cleanupResult_handles up).attempt
  | nowMs => exact now_handles up
  | budgetMs | app | deployment | ledger | redact _ => exact Stable.get.bind fun _ => .pure
  | pushChunk _ | pushLine _ | pushText _ => exact .modify fun _ _ handed => ⟨handed.app, handed.dep, handed.inv⟩

theorem runScript_handles (script : Script) :
    Handles see rule I d (StepIo.runScript script : Engine StepIo ε Unit) := by
  induction script with
  | done value => exact .pure
  | ask op next ih => exact (answer_handles up op).bind ih

/-- What a call returned: a configuration that was planned may be pinned. -/
def Returned (Pin : σ → ReleaseConfig → Prop) : (c : Call) → c.Ret → σ → Prop
  | .planRelease, v, s => ∀ config, v = some config → Pin s config
  | _, _, _ => True

theorem callBackend_handles {c : Call} (which : ∀ prev, c.previous? = some prev → previous = some prev)
    {io : StepIo} (handed : Handed I d io s) :
    Meets see rule (StepIo.callBackend c) (fun v io s => Handed I d io s ∧ Returned Pin c v s)
      (fun _ => Handed I d) io s := by
  have asked := up.call io.budgetMs which handed.inv
  refine meets_bind.mpr (meets_get.mpr (meets_bind.mpr (meets_ask.mpr ⟨asked.1, fun script => ?_⟩)))
  have given := runScript_handles (ε := StepError) up script io _ ⟨handed.app, handed.dep, asked.2 script⟩
  refine meets_bind.mpr (given.imp fun _ io s handed => ?_)
  have quiet := up.quiet (show EngineOp.IsQuiet (.result c) from trivial) handed.inv
  refine meets_bind.mpr (meets_ask.mpr ⟨quiet.1, fun res => meets_ofExcept ?_ ?_⟩)
  · rintro v rfl
    refine ⟨⟨handed.app, handed.dep, quiet.2 _⟩, ?_⟩
    cases c with
    | planRelease =>
      intro config planned
      cases planned
      exact up.planned
    | _ => trivial
  · rintro e rfl
    exact ⟨handed.app, handed.dep, quiet.2 _⟩

/-! ## Cleanup -/

omit up

abbrev Tidies (see : σ → Event EngineSig → σ) (rule : σ → EngineOp → Prop) (I : Deployment → Ledger → σ → Prop)
    (d : Deployment) (x : Engine Ledger EngineError α) : Prop := x.Stable see rule (I d)

/-- The action is about an entry of the deployment, or only reports. -/
def Action.Of (d : Deployment) (a : Action) : Prop := ∀ entry, a.target? = some entry → entry.1 = d.id

/-- A plan for the deployment alone is about its own entries. -/
theorem plan_of {observed : List Observed} {ended : EndState} : ∀ a ∈ plan l observed [(d.id, ended)], a.Of d := by
  intro a mem entry target
  rcases mem_plan mem with ⟨e, _, state, known, planned⟩ | ⟨o, _, rfl⟩
  · obtain ⟨x, found, rfl⟩ := Option.map_eq_some_iff.mp known
    have same := List.find?_some found
    have listed := List.mem_singleton.mp (List.mem_of_find?_eq_some found)
    rw [(planEntry_planned planned).1.target?] at target
    cases target
    rw [listed] at same
    exact (beq_iff_eq.mp same).symm
  · cases target

include up

theorem writeRecord_tidies {r : LedgerRecord} (of : r.Of d) : Tidies see rule I d (writeRecord r) := by
  intro l s inv
  refine meets_bind.mpr (meets_get.mpr ?_)
  split
  · exact inv
  next next applies =>
    obtain ⟨allowed, taken, lost⟩ := up.record of applies inv
    refine meets_bind.mpr (meets_ask.mpr ⟨allowed, fun answer => ?_⟩)
    cases answer with
    | acknowledged => exact taken
    | failed e stored => exact lost e stored

theorem now_tidies : Tidies see rule I d (now : Engine Ledger EngineError Nat) :=
  .perform fun _ _ inv => ⟨(up.clock inv).1, fun ms => ((up.clock inv).2 ms).1⟩

theorem attempt_tidies {entry : EntryRef} (own : entry.1 = d.id) : Tidies see rule I d (attempt entry) :=
  (now_tidies up).bind fun ms => writeRecord_tidies up (r := .cleanupAttempt entry.2 entry.1 ms) own

theorem settle_tidies {entry : EntryRef} {outcome : CleanupOutcome} (own : entry.1 = d.id) :
    Tidies see rule I d (settle entry outcome) :=
  (now_tidies up).bind fun ms => writeRecord_tidies up (r := .cleanupResult entry.2 entry.1 outcome ms) own

theorem adoptEntry_tidies {entry : EntryRef} {o : Observed} (own : entry.1 = d.id) :
    Tidies see rule I d (adoptEntry entry o) :=
  (now_tidies up).bind fun ms => writeRecord_tidies up (r := .receipt entry.2 entry.1 o.id ms) own

theorem bracket_tidies {x : Engine Ledger EngineError α} {entry : EntryRef} {outcome : CleanupOutcome}
    (own : entry.1 = d.id) (rest : Tidies see rule I d x) :
    Tidies see rule I d (attempt entry >>= fun _ => settle entry outcome >>= fun _ => x) :=
  (attempt_tidies up own).bind fun _ => (settle_tidies up own).bind fun _ => rest

theorem removeObserved_tidies {entry : EntryRef} {o : Observed} (own : entry.1 = d.id) :
    Tidies see rule I d (removeObserved entry o) := by
  refine (attempt_tidies up own).bind fun _ => Stable.get.bind fun l => ?_
  split
  next e found =>
    have asked := fun l s (inv : I d l s) => up.quiet (show EngineOp.IsQuiet (.removeResource (requestFor e o.id)) from trivial) inv
    exact (Stable.perform asked).bind fun _ => settle_tidies up own
  · exact .throw

theorem executeAction_tidies {a : Action} (of : a.Of d) : Tidies see rule I d (executeAction a) := by
  cases a with
  | reportOnly o why => exact .pure
  | adopt entry o => exact (adoptEntry_tidies up (of entry rfl)).bind fun _ => .pure
  | releaseLease entry | markAbsent entry | refuse entry why => exact bracket_tidies up (of entry rfl) .pure
  | remove entry o adopt =>
    have rest := (removeObserved_tidies up (o := o) (of entry rfl)).bind fun _ =>
      show Tidies see rule I d (pure ([] : List Observed)) from .pure
    cases adopt with
    | true => exact (adoptEntry_tidies up (of entry rfl)).bind fun _ => rest
    | false => exact rest

theorem executeActions_tidies {actions : List Action} (of : ∀ a ∈ actions, a.Of d) :
    Tidies see rule I d (executeActions actions) := by
  induction actions with
  | nil => exact .pure
  | cons a actions ih =>
    refine (executeAction_tidies up (of a List.mem_cons_self)).bind fun _ => ?_
    exact (ih fun b mem => of b (List.mem_cons_of_mem _ mem)).bind fun _ => .pure

theorem releaseLeases_tidies {leases : List Action} (of : ∀ a ∈ leases, a.Of d) :
    Tidies see rule I d (releaseLeases leases) := by
  induction leases with
  | nil => exact .pure
  | cons a leases ih =>
    have tail := ih fun b mem => of b (List.mem_cons_of_mem _ mem)
    refine Stable.bind (Stable.get.bind fun l => ?_) fun _ => tail.bind fun _ => .pure
    split
    · exact executeActions_tidies up fun b mem => List.mem_singleton.mp mem ▸ of a List.mem_cons_self
    · exact .pure

theorem failActions_tidies {why : String} {actions : List Action} (of : ∀ a ∈ actions, a.Of d) :
    Tidies see rule I d (failActions why actions) := by
  induction actions with
  | nil => exact .pure
  | cons a actions ih =>
    have tail := ih fun b mem => of b (List.mem_cons_of_mem _ mem)
    have here := of a List.mem_cons_self
    cases a with
    | releaseLease entry | markAbsent entry => exact bracket_tidies up (here entry rfl) tail
    | reportOnly _ _ | adopt _ _ | refuse _ _ | remove _ _ _ => exact tail

theorem listResources_tidies : Tidies see rule I d (ask .listResources : Engine Ledger EngineError _) :=
  .perform fun _ _ inv => up.quiet trivial inv

theorem reconcile_tidies {ended : EndState} : Tidies see rule I d (reconcile [(d.id, ended)]) := by
  refine (listResources_tidies up).bind fun listed => ?_
  cases listed with
  | ok observed =>
    refine Stable.get.bind fun l => ?_
    have objects : ∀ a ∈ ((plan l observed [(d.id, ended)]).partition Action.isReleaseLease).2, a.Of d := by
      intro a mem
      rw [List.partition_eq_filter_filter] at mem
      exact plan_of a (List.mem_filter.mp mem).1
    have leases : ∀ a ∈ ((plan l observed [(d.id, ended)]).partition Action.isReleaseLease).1, a.Of d := by
      intro a mem
      rw [List.partition_eq_filter_filter] at mem
      exact plan_of a (List.mem_filter.mp mem).1
    exact (executeActions_tidies up objects).bind fun _ => (releaseLeases_tidies up leases).bind fun _ => .pure
  | error e => exact Stable.get.bind fun l => (failActions_tidies up plan_of).bind fun _ => .pure

theorem failTargets_tidies {why : String} {actions : List Action} (of : ∀ a ∈ actions, a.Of d) :
    Tidies see rule I d (Run.failTargets why actions) := by
  induction actions with
  | nil => exact .pure
  | cons a actions ih =>
    have tail := ih fun b mem => of b (List.mem_cons_of_mem _ mem)
    have here := of a List.mem_cons_self
    have alone : Tidies see rule I d (executeActions [a]) :=
      executeActions_tidies up fun b mem => List.mem_singleton.mp mem ▸ here
    cases a with
    | markAbsent entry | adopt entry _ | remove entry _ _ => exact bracket_tidies up (here entry rfl) tail
    | releaseLease _ | refuse _ _ | reportOnly _ _ => exact alone.bind fun _ => tail

theorem releasePreliminary_tidies {firstNew : Nat} : Tidies see rule I d (Run.releasePreliminary d.id firstNew) := by
  have targets : ∀ {l observed} {keys : List ResourceKey},
      ∀ a ∈ Run.targetActions keys (plan l observed [(d.id, .succeeded)]), a.Of d :=
    fun a mem => plan_of a (List.mem_filter.mp mem).1
  refine Stable.get.bind fun l => ?_
  dsimp only
  split
  · exact .pure
  · refine (listResources_tidies up).bind fun listed => Stable.bind ?_ fun _ => Stable.get.bind fun _ => .pure
    cases listed with
    | ok observed => exact Stable.get.bind fun l => (executeActions_tidies up targets).bind fun _ => .pure
    | error e => exact Stable.get.bind fun l => failTargets_tidies up targets

/-! ## Code that leaves the deployment alone -/

omit up

/-- The deployment of the run is `d`, and the invariant holds. -/
structure Steady (I : Deployment → Ledger → σ → Prop) (d : Deployment) (r : Run) (s : σ) : Prop where
  same : r.d = d
  inv : I d r.ledger s

abbrev Rests (see : σ → Event EngineSig → σ) (rule : σ → EngineOp → Prop) (I : Deployment → Ledger → σ → Prop)
    (d : Deployment) (x : RunM α) : Prop := x.Stable see rule (Steady I d)

/-- Code that asks nothing, and changes only the notes of the run. -/
def Notes (see : σ → Event EngineSig → σ) (rule : σ → EngineOp → Prop) (x : RunM α) : Prop :=
  ∀ r s, Meets see rule x (fun _ r' s' => r'.d = r.d ∧ r'.ledger = r.ledger ∧ s' = s) (fun _ _ _ => False) r s

theorem Notes.pure {v : α} : Notes see rule (pure v) := fun _ _ => ⟨rfl, rfl, rfl⟩

theorem Notes.modify {f : Run → Run} (same : ∀ r, (f r).d = r.d) (ledger : ∀ r, (f r).ledger = r.ledger) :
    Notes see rule (modify f) := fun r _ => ⟨same r, ledger r, rfl⟩

theorem Notes.bind {β : Type} {x : RunM α} {f : α → RunM β} (first : Notes see rule x)
    (second : ∀ v, Notes see rule (f v)) : Notes see rule (x >>= f) := by
  intro r s
  refine meets_bind.mpr ((first r s).imp fun v r₁ s₁ kept => ?_)
  obtain ⟨same, ledger, rfl⟩ := kept
  refine (second v r₁ s₁).imp fun _ r₂ s₂ kept => ?_
  exact ⟨kept.1.trans same, kept.2.1.trans ledger, kept.2.2⟩

theorem Notes.rests {x : RunM α} (notes : Notes see rule x) : Rests see rule I d x := fun r s steady =>
  (notes r s).mono (fun _ _ _ kept => ⟨kept.1.trans steady.same, kept.2.2.symm ▸ kept.2.1.symm ▸ steady.inv⟩)
    fun _ _ _ none => none.elim

theorem keepLog_notes {step : Step} {cap : LogCapture} : Notes see rule (Run.keepLog step cap) := by
  refine Notes.modify (fun r => ?_) fun r => ?_
  · split <;> rfl
  · split <;> rfl

theorem warn_notes {warnings : List String} : Notes see rule (Run.warn warnings) :=
  .modify (fun _ => rfl) fun _ => rfl

theorem describe_notes {step : Step} {e : StepError} {elapsed budget : Nat} :
    Notes see rule (Run.describe cfg step e elapsed budget) := by
  unfold Run.describe
  dsimp only
  split
  · exact Notes.bind (.modify (fun _ => rfl) fun _ => rfl) fun _ => .pure
  · exact .pure

theorem failure_notes {step : Step} {e : StepError} {elapsed budget : Nat} :
    Notes see rule (Run.failure cfg step e elapsed budget) := describe_notes.bind fun _ => .pure

theorem keepEvidence_notes {step : Step} {ev : Option CheckEvidence} : Notes see rule (Run.keepEvidence step ev) :=
  .modify (fun _ => rfl) fun _ => rfl

theorem warnFailed_notes {what : String} {res : Except StepError α} : Notes see rule (Run.warnFailed cfg what res) := by
  cases res with
  | ok _ => exact .pure
  | error e => exact warn_notes

theorem warnNotRestored_notes {out : Outcome RestoreResult} : Notes see rule (Run.warnNotRestored cfg out) := by
  unfold Run.warnNotRestored
  split
  · split
    · exact .pure
    · exact warnFailed_notes
  · exact .pure

include up

theorem now_rests : Rests see rule I d (now : RunM Nat) :=
  .perform fun _ _ steady => ⟨(up.clock steady.inv).1, fun ms => ⟨steady.same, ((up.clock steady.inv).2 ms).1⟩⟩

theorem ask_rests {op : EngineOp} (isQuiet : op.IsQuiet) : Rests see rule I d (ask op : RunM op.Answer) :=
  .perform fun _ _ steady =>
    ⟨(up.quiet isQuiet steady.inv).1, fun answer => ⟨steady.same, (up.quiet isQuiet steady.inv).2 answer⟩⟩

theorem save_rests : Rests see rule I d Run.save := by
  intro r s steady
  have persist := up.persist (steady.same.symm ▸ steady.inv : I r.d r.ledger s)
  refine meets_bind.mpr (meets_get.mpr (meets_bind.mpr (meets_ask.mpr ⟨persist.1, fun answer => ?_⟩)))
  have after : Steady I d r (see s ⟨.persist r.d, answer⟩) := ⟨steady.same, steady.same ▸ persist.2 answer⟩
  cases answer with
  | acknowledged => exact after
  | failed e stored => exact after

omit up

/-- Cleanup code on the run's ledger. -/
theorem onLedger_rests {x : Engine Ledger EngineError α} (tidies : Tidies see rule I d x) :
    Rests see rule I d (Run.onLedger x) := by
  intro r s steady
  exact meets_zoom.mpr ((tidies r.ledger s steady.inv).mono (fun _ _ _ inv => ⟨steady.same, inv⟩)
    fun _ _ _ inv => ⟨steady.same, inv⟩)

include up

/-- Code that calls the backend, with what its value says. -/
theorem exec_upholds {step : Step} {budget : Nat} {f : StepFn α} {Q : α → σ → Prop} {r : Run}
    (calls : ∀ io s, Handed I d io s →
      Meets see rule f (fun v io s => Handed I d io s ∧ Q v s) (fun _ => Handed I d) io s)
    (later : ∀ v s ms, Q v s → Q v (see s ⟨.nowMs, ms⟩)) (steady : Steady I d r s) :
    Meets see rule (Run.exec cfg step budget f) (fun out r s => Steady I d r s ∧ ∀ v, out.res = .ok v → Q v s)
      (fun _ => Steady I d) r s := by
  refine meets_bind.mpr ((now_rests up r s steady).imp fun _ r s steady => ?_)
  refine meets_bind.mpr (meets_get.mpr (meets_bind.mpr ?_))
  have handed : Handed I d ⟨budget, .new cfg.logLimits cfg.redactor, r.ledger, r.d.applicationId, r.d.id⟩ s :=
    ⟨congrArg (·.applicationId) steady.same, congrArg (·.id) steady.same, steady.inv⟩
  refine meets_embed_of (Q := fun got io s => Handed I d io s ∧ ∀ v, got = .ok v → Q v s) ?_ ?_
  · refine (calls _ s handed).mono (fun v io s given => ⟨given.1, fun w same => ?_⟩) fun e io s given =>
      ⟨given, fun w same => ?_⟩
    · cases same
      exact given.2
    · cases same
  · rintro got io s ⟨given, told⟩
    refine meets_bind.mpr (meets_modify.mpr (meets_bind.mpr ?_))
    have kept : Steady I d { r with ledger := io.ledger } s := ⟨steady.same, given.inv⟩
    refine meets_ask.mpr ⟨(up.clock kept.inv).1, fun ms => ?_⟩
    have clock : Steady I d { r with ledger := io.ledger } (see s ⟨.nowMs, ms⟩) :=
      ⟨steady.same, ((up.clock kept.inv).2 ms).1⟩
    have logged : Meets see rule (Run.keepLog step io.log.capture) (fun _ => Steady I d) (fun _ => Steady I d) _ _ :=
      keepLog_notes.rests _ _ clock
    refine meets_bind.mpr (meets_modify.mpr ?_)
    cases got with
    | error e =>
      dsimp only
      split
      · exact logged
      · refine ⟨logged, fun v same => ?_⟩
        cases same
    | ok v =>
      dsimp only
      split
      · refine ⟨logged, fun w same => ?_⟩
        cases same
      · refine ⟨logged, fun w same => ?_⟩
        cases same
        exact later v s ms (told v rfl)

/-- A call whose value the engine may change. -/
theorem call_rests {step : Step} {budget : Nat} {c : Call} {f : StepFn α}
    (which : ∀ prev, c.previous? = some prev → previous = some prev)
    (calls : ∀ io s, Handed I d io s → Meets see rule (StepIo.callBackend c) (fun v io s => Handed I d io s ∧
      Returned Pin c v s) (fun _ => Handed I d) io s → Meets see rule f (fun _ => Handed I d) (fun _ => Handed I d) io s) :
    Rests see rule I d (Run.exec cfg step budget f) := by
  intro r s steady
  refine (exec_upholds up (Q := fun _ _ => True) (fun io s handed => ?_) (fun _ _ _ _ => trivial) steady).imp
    fun _ _ _ after => after.1
  exact (calls io s handed (callBackend_handles up which handed)).imp fun _ _ _ handed => ⟨handed, trivial⟩

theorem plain_rests {step : Step} {budget : Nat} {c : Call}
    (which : ∀ prev, c.previous? = some prev → previous = some prev) :
    Rests see rule I d (Run.exec cfg step budget (StepIo.callBackend c)) :=
  call_rests up which fun _ _ _ called => called.imp fun _ _ _ given => given.1

/-- A call whose value is thrown away. -/
theorem silent_rests {step : Step} {budget : Nat} {c : Call}
    (which : ∀ prev, c.previous? = some prev → previous = some prev) {v : α} :
    Rests see rule I d (Run.exec cfg step budget (do let _ ← StepIo.callBackend c; return v)) :=
  call_rests up which fun _ _ _ called => meets_bind.mpr (called.imp fun _ _ _ given => given.1)

theorem preliminaryStep_rests {step : Step} {budget : Nat} :
    Rests see rule I d (Run.exec cfg step budget Run.preliminaryStep) := by
  refine call_rests up (c := .preliminaryCheck) (fun _ h => by cases h) fun io s handed called => ?_
  refine meets_bind.mpr (meets_attempt.mpr (called.mono (fun v io s given => ?_) fun e io s given => ?_))
  · have asked := up.quiet (show EngineOp.IsQuiet .acceptsSimulatedEvidence from trivial) given.1.inv
    refine meets_bind.mpr (meets_ask.mpr ⟨asked.1, fun a => Stable.ofExcept _ _ ?_⟩)
    exact ⟨given.1.app, given.1.dep, asked.2 a⟩
  · have asked := up.quiet (show EngineOp.IsQuiet .acceptsSimulatedEvidence from trivial) given.inv
    refine meets_bind.mpr (meets_ask.mpr ⟨asked.1, fun a => Stable.ofExcept _ _ ?_⟩)
    exact ⟨given.app, given.dep, asked.2 a⟩

theorem settlePreliminary_rests {β : Type} {firstNew : Nat} {res : Except StepError β} :
    Rests see rule I d (Run.settlePreliminary firstNew res) := by
  intro r s steady
  refine meets_bind.mpr (meets_get.mpr ?_)
  rw [steady.same]
  refine meets_bind.mpr ((onLedger_rests (releasePreliminary_tidies up) r s steady).imp fun stuck r s steady => ?_)
  cases stuck with
  | none => exact steady
  | some problem =>
    cases res with
    | ok v => exact steady
    | error e => exact meets_bind.mpr ((warn_notes.rests r s steady).imp fun _ _ _ steady => steady)

theorem cutoverCall_rests {c : Call} (which : ∀ prev, c.previous? = some prev → previous = some prev) :
    Rests see rule I d (Run.cutoverCall cfg c) := by
  refine (silent_rests up which).bind fun out => ?_
  split
  · exact .pure
  · exact failure_notes.rests.bind fun _ => .pure

theorem finalCheck_rests : Rests see rule I d (Run.finalCheck cfg) := by
  refine (plain_rests up fun _ h => by cases h).bind fun out => Stable.bind ?_ fun judged => ?_
  · cases out.res with
    | ok ev => exact (ask_rests up (show EngineOp.IsQuiet .acceptsSimulatedEvidence from trivial)).bind fun _ => .pure
    | error e => exact .pure
  · split
    · exact keepEvidence_notes.rests.bind fun _ => .pure
    · exact failure_notes.rests.bind fun _ => .pure

theorem stopFailedNewRelease_rests : Rests see rule I d (Run.stopFailedNewRelease cfg) :=
  (silent_rests up fun _ h => by cases h).bind fun _ => warnFailed_notes.rests

theorem freeAddress_rests {newStarted : Bool} : Rests see rule I d (Run.freeAddress cfg newStarted) := by
  unfold Run.freeAddress
  split
  · exact stopFailedNewRelease_rests up
  · exact .pure

theorem restorePhase_rests {budget : Nat} : Rests see rule I d (Run.restorePhase cfg previous budget) := by
  unfold Run.restorePhase
  cases replaced : previous with
  | none => exact .pure
  | some prev =>
    have which : ∀ p, some prev = some p → previous = some p := fun p same => replaced.trans same
    dsimp only
    split
    · exact .pure
    · refine (plain_rests up (c := .restoreBlockers prev) which).bind fun checked => warnFailed_notes.rests.bind fun _ => ?_
      split
      · exact warn_notes.rests.bind fun _ => .pure
      · exact (plain_rests up (c := .restorePrevious prev budget) which).bind fun out => warnNotRestored_notes.rests.bind fun _ => .pure

/-! ## Code that edits the deployment -/

omit up

/-- The invariant holds of the run. -/
abbrev Holds (I : Deployment → Ledger → σ → Prop) (r : Run) (s : σ) : Prop := I r.d r.ledger s

/-- The deployment is running, and the invariant holds. -/
structure Going (I : Deployment → Ledger → σ → Prop) (r : Run) (s : σ) : Prop where
  running : r.d.status = .running
  inv : I r.d r.ledger s

theorem Going.open_ {r : Run} (going : Going I r s) : r.d.status.isTerminal = false := by
  rw [going.running]
  rfl

/-- The code upholds the invariant, and ends with `post`. -/
abbrev Ends (see : σ → Event EngineSig → σ) (rule : σ → EngineOp → Prop) (I : Deployment → Ledger → σ → Prop)
    (x : RunM α) (post : α → Run → σ → Prop) (r : Run) (s : σ) : Prop :=
  Meets see rule x post (fun _ => Holds I) r s

variable {r : Run} {post : α → Run → σ → Prop}

theorem ends_rests {x : RunM α} (rests : ∀ d, Rests see rule I d x) (inv : Holds I r s)
    (h : ∀ v r' s', r'.d = r.d → Holds I r' s' → post v r' s') : Ends see rule I x post r s := by
  refine (rests r.d r s ⟨rfl, inv⟩).mono (fun v r' s' steady => ?_) fun _ r' s' steady => ?_
  · exact h v r' s' steady.same (show I r'.d r'.ledger s' from steady.same.symm ▸ steady.inv)
  · exact (show I r'.d r'.ledger s' from steady.same.symm ▸ steady.inv)

/-- While the deployment is running, code that leaves it alone keeps it so. -/
theorem going_rests {x : RunM α} (rests : ∀ d, Rests see rule I d x) (going : Going I r s)
    (h : ∀ v r' s', r'.d = r.d → Going I r' s' → post v r' s') : Ends see rule I x post r s :=
  ends_rests rests going.inv fun v r' s' same inv =>
    h v r' s' same ⟨(congrArg (·.status) same).trans going.running, inv⟩

theorem going_notes {x : RunM α} (notes : Notes see rule x) (going : Going I r s)
    (h : ∀ v r', Going I r' s → post v r' s) : Ends see rule I x post r s := by
  refine (notes r s).mono (fun v r' s' kept => ?_) fun _ _ _ none => none.elim
  obtain ⟨same, ledger, rfl⟩ := kept
  exact h v r' ⟨(congrArg (·.status) same).trans going.running, same.symm ▸ ledger.symm ▸ going.inv⟩

theorem change_ends {f : Deployment → Except TransitionError Deployment} {post : Unit → Run → σ → Prop}
    (inv : Holds I r s) (h : ∀ d', f r.d = .ok d' → post () { r with d := d' } s) :
    Ends see rule I (Run.change f) post r s := by
  refine meets_bind.mpr (meets_get.mpr ?_)
  split
  next d' changed => exact h d' changed
  · exact inv

include up

theorem now_ends {post : Nat → Run → σ → Prop} (inv : Holds I r s)
    (h : ∀ ms s', Holds I r s' → Time s' ms → post ms r s') : Ends see rule I now post r s :=
  meets_ask.mpr ⟨(up.clock inv).1, fun ms => h ms _ ((up.clock inv).2 ms).1 ((up.clock inv).2 ms).2⟩

theorem save_ends {post : Unit → Run → σ → Prop} (inv : Holds I r s)
    (h : ∀ r' s', r'.d = r.d → Holds I r' s' → post () r' s') : Ends see rule I Run.save post r s :=
  ends_rests (fun _ => save_rests up) inv fun _ => h

theorem going_now {post : Nat → Run → σ → Prop} (going : Going I r s)
    (h : ∀ ms s', Going I r s' → Time s' ms → post ms r s') : Ends see rule I now post r s :=
  now_ends up going.inv fun ms s' inv => h ms s' ⟨going.running, inv⟩

theorem going_save {post : Unit → Run → σ → Prop} (going : Going I r s)
    (h : ∀ r' s', Going I r' s' → post () r' s') : Ends see rule I Run.save post r s :=
  going_rests (fun _ => save_rests up) going fun _ r' s' _ => h r' s'

/-- The deployment moves to a status, and the invariant goes with it. -/
theorem move_ends {target : DeploymentStatus} {ms : Nat} {post : Unit → Run → σ → Prop} (time : Time s ms)
    (inv : Holds I r s) (h : ∀ r', r'.d.status = target → Holds I r' s → post () r' s) :
    Ends see rule I (Run.change (·.transition target ms)) post r s := by
  refine change_ends inv fun d' moved => ?_
  obtain ⟨legal, status⟩ := Deployment.transition_ok moved
  have open_ : r.d.status.isTerminal = false := by
    cases source : r.d.status with
    | requested | queued | running => rfl
    | _ => rw [source] at legal; cases target <;> cases legal
  exact h { r with d := d' } status.status (up.edit open_ (.move time moved) inv)

/-- The deployment is edited while it runs. -/
theorem edit_ends {f : Deployment → Except TransitionError Deployment} {post : Unit → Run → σ → Prop}
    (going : Going I r s) (edits : ∀ d', f r.d = .ok d' → Edit cfg previous (Time s) (Pin s) r.d d')
    (status : ∀ d', f r.d = .ok d' → d'.status = r.d.status) (h : ∀ r', Going I r' s → post () r' s) :
    Ends see rule I (Run.change f) post r s := by
  refine change_ends going.inv fun d' changed => h { r with d := d' } ⟨?_, ?_⟩
  · exact (status d' changed).trans going.running
  · exact up.edit going.open_ (edits d' changed) going.inv

theorem start_ends {step : Step} {ms : Nat} {post : Unit → Run → σ → Prop} (time : Time s ms) (going : Going I r s)
    (h : ∀ r', Going I r' s → post () r' s) : Ends see rule I (Run.change (·.startStep step ms)) post r s :=
  edit_ends up going (fun _ started => .start time started)
    (fun _ started => (Deployment.startStep_ok started).2.status_eq) h

theorem finish_ends {step : Step} {ok : Bool} {note : String} {ms : Nat} {post : Unit → Run → σ → Prop}
    (time : Time s ms) (going : Going I r s) (h : ∀ r', Going I r' s → post () r' s) :
    Ends see rule I (Run.change (·.finishStep step ok note ms)) post r s :=
  edit_ends up going (fun _ finished => .finish time finished)
    (fun _ finished => (Deployment.finishStep_ok finished).2.status_eq) h

theorem setFailure_going {step : Step} {kind : FailureKind} {message : String} {timedOut : Bool}
    (going : Going I r s) : Going I { r with d := { r.d with failure := some ⟨step, kind, message, timedOut⟩ } } s :=
  ⟨going.running, up.edit going.open_ (.fail _) going.inv⟩

/-- The deployment ends. -/
theorem endFailed_ends {step : Step} {kind : FailureKind} {message : String} {timedOut : Bool} {ms : Nat}
    (time : Time s ms) (going : Going I r s) :
    Ends see rule I (Run.endFailed step kind message timedOut ms) (fun _ => Holds I) r s := by
  refine meets_bind.mpr (meets_modify.mpr (meets_bind.mpr ?_))
  refine move_ends up time (setFailure_going up going).inv fun r' _ inv => ?_
  exact save_ends up inv fun _ _ _ inv => inv

theorem endNow_ends {target : DeploymentStatus} (going : Going I r s) :
    Ends see rule I (do let at_ ← now; Run.change (·.transition target at_); Run.save) (fun _ => Holds I) r s := by
  refine meets_bind.mpr (going_now up going fun ms s' going time => meets_bind.mpr ?_)
  exact move_ends up time going.inv fun r' _ inv => save_ends up inv fun _ _ _ inv => inv

/-! ## The stages of a run -/

/-- The deployment still runs, or its run has ended. -/
def GoesOn (I : Deployment → Ledger → σ → Prop) (go : Bool) (r : Run) (s : σ) : Prop :=
  if go then Going I r s else Holds I r s

theorem endStep_ends {step : Step} {kind : FailureKind} {elapsed : Nat} {res : Except StepError (Option CheckEvidence)}
    (going : Going I r s) : Ends see rule I (Run.endStep cfg step kind elapsed res) (GoesOn I) r s := by
  cases res with
  | ok ev =>
    refine meets_bind.mpr (going_now up going fun ms s going time => meets_bind.mpr ?_)
    refine going_notes keepEvidence_notes going fun _ r going => meets_bind.mpr ?_
    refine finish_ends up time going fun r going => meets_bind.mpr (meets_modify.mpr (meets_bind.mpr ?_))
    have built : Going I (Run.releaseOf step r) s := by
      unfold Run.releaseOf
      split
      · exact ⟨going.running, up.edit going.open_ .build going.inv⟩
      · exact going
    exact going_save up built fun _ _ going => going
  | error e =>
    refine meets_bind.mpr (going_now up going fun ms s going time => meets_bind.mpr ?_)
    refine going_notes describe_notes going fun message r going => meets_bind.mpr ?_
    refine finish_ends up time going fun r going => meets_bind.mpr ?_
    exact (endFailed_ends up time going).imp fun _ _ _ inv => inv

theorem preStep_ends {step : Step} {kind : FailureKind} {f : StepFn (Option CheckEvidence)}
    (calls : ∀ d, Rests see rule I d (Run.exec cfg step (cfg.budgets.forStep step) f)) (going : Going I r s) :
    Ends see rule I (Run.preStep cfg step kind f) (GoesOn I) r s := by
  refine meets_bind.mpr (going_rests (fun _ => ask_rests up (show EngineOp.IsQuiet .cancel from trivial)) going fun cancel r s _ going => ?_)
  split
  · exact meets_bind.mpr ((endNow_ends up going).imp fun _ _ _ inv => inv)
  · refine meets_bind.mpr (going_now up going fun ms s going time => meets_bind.mpr ?_)
    refine start_ends up time going fun r going => meets_bind.mpr (going_save up going fun r s going => ?_)
    refine meets_bind.mpr (meets_get.mpr (meets_bind.mpr ?_))
    refine going_rests calls going fun out r s _ going => ?_
    split
    · refine meets_bind.mpr (going_rests (fun _ => settlePreliminary_rests up) going fun res r s _ going => ?_)
      exact endStep_ends up going
    · exact endStep_ends up going

theorem planAndPin_ends (going : Going I r s) : Ends see rule I (Run.planAndPin cfg) (GoesOn I) r s := by
  refine meets_bind.mpr ((exec_upholds up (Q := Returned Pin .planRelease)
    (fun io s handed => callBackend_handles up (fun _ h => by cases h) handed)
    (fun v s ms pins config same => up.keeps (pins config same)) ⟨rfl, going.inv⟩).mono ?_ ?_)
  · rintro out r' s' ⟨steady, planned⟩
    have going' : Going I r' s' :=
      ⟨(congrArg (·.status) steady.same).trans going.running, steady.same.symm ▸ steady.inv⟩
    cases res : out.res with
    | ok config =>
      cases config with
      | some config =>
        refine meets_bind.mpr (meets_modify.mpr (meets_bind.mpr ?_))
        refine going_save up (r := { r' with d := { r'.d with pinned := some config } }) ⟨going'.running, ?_⟩
          fun _ _ going => going
        exact up.edit going'.open_ (.pin (planned _ res config rfl)) going'.inv
      | none => exact going'
    | error e =>
      refine meets_bind.mpr (going_notes describe_notes going' fun message r going => meets_bind.mpr ?_)
      refine going_now up going fun ms s going time => meets_bind.mpr ?_
      exact (endFailed_ends up time going).imp fun _ _ _ inv => inv
  · intro _ r' s' steady
    exact (show I r'.d r'.ledger s' from steady.same.symm ▸ steady.inv)

theorem repin_ends {post : Unit → Run → σ → Prop} (going : Going I r s) (h : ∀ r' s', Going I r' s' → post () r' s') :
    Ends see rule I Run.repin post r s := by
  have asked := up.actual going.inv
  refine meets_bind.mpr (meets_ask.mpr ⟨asked.1, fun pinned => ?_⟩)
  have going' : Going I r (see s ⟨.pinnedConfig, pinned⟩) := ⟨going.running, (asked.2 pinned).1⟩
  cases pinned with
  | none => exact h r _ going'
  | some actual =>
    refine meets_bind.mpr (meets_get.mpr ?_)
    split
    · refine meets_bind.mpr (meets_modify.mpr ?_)
      refine going_save up (r := { r with d := { r.d with pinned := some actual } }) ⟨going'.running, ?_⟩ h
      exact up.edit going'.open_ (.pin ((asked.2 _).2 actual rfl)) going'.inv
    · exact h r _ going'

theorem failAfterCutover_ends {step : Step} {kind : FailureKind} {message : String} {timedOut newStarted : Bool}
    (going : Going I r s) : Ends see rule I
      (Run.failAfterCutover cfg previous step kind message timedOut newStarted cfg.policy.restoreBudgetMs)
      (fun _ => Holds I) r s := by
  refine meets_bind.mpr (going_now up going fun ms s going time => meets_bind.mpr ?_)
  refine finish_ends up time going fun r going => meets_bind.mpr (meets_modify.mpr (meets_bind.mpr ?_))
  refine edit_ends up (setFailure_going up going) (fun _ failed => .failCutover time failed)
    (fun _ failed => (Deployment.failCutover_ok failed).2.1.status_eq) fun r going => meets_bind.mpr ?_
  refine start_ends up time going fun r going => meets_bind.mpr ?_
  refine edit_ends up going (fun _ started => .recover time started)
    (fun _ started => (Deployment.startRecovery_ok started).2.1.status_eq) fun r going => ?_
  refine meets_bind.mpr (going_save up going fun r s going => meets_bind.mpr ?_)
  refine going_rests (fun _ => freeAddress_rests up) going fun _ r s _ going => meets_bind.mpr ?_
  refine going_rests (fun _ => restorePhase_rests up) going fun outcome r s _ going => meets_bind.mpr ?_
  refine going_now up going fun ms s going time => meets_bind.mpr ?_
  refine edit_ends up going (fun _ finished => .recovered time finished)
    (fun _ finished => (Deployment.finishRecovery_ok finished).1.status_eq) fun r going => ?_
  refine meets_bind.mpr (finish_ends up time going fun r going => meets_bind.mpr ?_)
  exact move_ends up time going.inv fun r _ inv => save_ends up inv fun _ _ _ inv => inv

theorem firstDeployment_ends (going : Going I r s) :
    Ends see rule I (Run.firstDeployment cfg) (fun _ => Holds I) r s := by
  refine meets_bind.mpr ((planAndPin_ends up going).imp fun go r s goes => ?_)
  cases go with
  | false => exact goes
  | true =>
  have going : Going I r s := goes
  refine meets_bind.mpr (edit_ends up going (fun _ unneeded => .need unneeded)
    (fun _ unneeded => (Deployment.cutoverNotRequired_ok unneeded).2.1.status_eq) fun r going => meets_bind.mpr ?_)
  refine going_now up going fun ms s going time => meets_bind.mpr (start_ends up time going fun r going => ?_)
  refine meets_bind.mpr (going_save up going fun r s going => meets_bind.mpr ?_)
  refine going_rests (fun _ => cutoverCall_rests up fun _ h => by cases h) going fun started r s _ going => ?_
  refine meets_bind.mpr (going_now up going fun ms s going time => ?_)
  cases started with
  | error m =>
    exact meets_bind.mpr (finish_ends up time going fun r going => endFailed_ends up time going)
  | ok _ =>
    refine meets_bind.mpr (finish_ends up time going fun r going => meets_bind.mpr ?_)
    refine start_ends up time going fun r going => meets_bind.mpr (repin_ends up going fun r s going => ?_)
    refine meets_bind.mpr (going_save up going fun r s going => meets_bind.mpr ?_)
    refine going_rests (fun _ => finalCheck_rests up) going fun checked r s _ going => meets_bind.mpr ?_
    refine going_now up going fun ms s going time => ?_
    cases checked with
    | ok note => exact meets_bind.mpr (finish_ends up time going fun r going => endNow_ends up going)
    | error m =>
      refine meets_bind.mpr (finish_ends up time going fun r going => meets_bind.mpr (meets_modify.mpr ?_))
      refine meets_bind.mpr (going_rests (fun _ => stopFailedNewRelease_rests up) (setFailure_going up going) ?_)
      exact fun _ r s _ going => endNow_ends up going

theorem whyNotCutOver_rests {plan : CutoverPlan} : Rests see rule I d (Run.whyNotCutOver plan) := by
  refine (ask_rests up (show EngineOp.IsQuiet .supportsCutover from trivial)).bind fun supported => ?_
  split
  · exact .pure
  · refine (ask_rests up (show EngineOp.IsQuiet (.confirm plan) from trivial)).bind fun confirmed => ?_
    split
    · exact .pure
    · exact .pure

theorem cutOver_ends {prev : PreviousRelease} (replaced : previous = some prev) (going : Going I r s) :
    Ends see rule I (Run.cutOver cfg prev) (fun _ => Holds I) r s := by
  have failed : ∀ {step kind m timedOut newStarted} {r s}, Going I r s → Ends see rule I
      (Run.failAfterCutover cfg (some prev) step kind m timedOut newStarted cfg.policy.restoreBudgetMs)
      (fun _ => Holds I) r s := fun going => replaced ▸ failAfterCutover_ends up going
  refine meets_bind.mpr (going_now up going fun ms s going time => meets_bind.mpr (meets_modify.mpr ?_))
  have replaces : Going I { r with d := { r.d with replaces := some prev.release } } s :=
    ⟨going.running, up.edit going.open_ (.replace replaced) going.inv⟩
  refine meets_bind.mpr (edit_ends up replaces (fun _ begun => .begin replaced time rfl begun)
    (fun _ begun => (Deployment.beginCutover_ok begun).2.1.status_eq) fun r going => meets_bind.mpr ?_)
  refine start_ends up time going fun r going => meets_bind.mpr (going_save up going fun r s going => ?_)
  refine meets_bind.mpr (going_rests (fun _ => cutoverCall_rests up fun _ h => replaced.trans h) going ?_)
  intro stopped r s _ going
  cases stopped with
  | error m => exact failed going
  | ok _ =>
  refine meets_bind.mpr (going_rests (fun _ => cutoverCall_rests up fun _ h => by cases h) going ?_)
  intro started r s _ going
  cases started with
  | error m => exact failed going
  | ok _ =>
  refine meets_bind.mpr (repin_ends up going fun r s going => meets_bind.mpr ?_)
  refine going_now up going fun ms s going time => meets_bind.mpr (finish_ends up time going fun r going => ?_)
  refine meets_bind.mpr (start_ends up time going fun r going => meets_bind.mpr (going_save up going fun r s going => ?_))
  refine meets_bind.mpr (going_rests (fun _ => finalCheck_rests up) going fun checked r s _ going => ?_)
  cases checked with
  | error m => exact failed going
  | ok note =>
    refine meets_bind.mpr (going_now up going fun ms s going time => meets_bind.mpr ?_)
    refine finish_ends up time going fun r going => meets_bind.mpr ?_
    refine edit_ends up going (fun _ confirmed => .confirm time confirmed)
      (fun _ confirmed => (Deployment.confirmCutover_ok confirmed).1.status_eq) fun r going => ?_
    exact endNow_ends up going

theorem replacement_ends {prev : PreviousRelease} (replaced : previous = some prev) (going : Going I r s) :
    Ends see rule I (Run.replacement cfg prev) (fun _ => Holds I) r s := by
  refine meets_bind.mpr (meets_get.mpr (meets_bind.mpr ?_))
  refine going_rests (fun _ => whyNotCutOver_rests up) going fun why r s _ going => ?_
  cases why with
  | some why => exact meets_bind.mpr (meets_modify.mpr (endNow_ends up ⟨going.running, going.inv⟩))
  | none =>
    refine meets_bind.mpr ((planAndPin_ends up going).imp fun go r s goes => ?_)
    cases go with
    | false => exact goes
    | true => exact cutOver_ends up replaced goes

theorem drive_ends (inv : Holds I r s) : Ends see rule I (Run.drive cfg previous) (fun _ => Holds I) r s := by
  refine meets_bind.mpr (now_ends up inv fun ms s inv time => meets_bind.mpr ?_)
  refine move_ends up time inv fun r running inv => meets_bind.mpr ?_
  refine going_save up ⟨running, inv⟩ fun r s going => meets_bind.mpr ?_
  have plain : ∀ {c : Call}, c.previous? = none → ∀ {step d}, Rests see rule I d
      (Run.exec cfg step (cfg.budgets.forStep step) (Run.plainStep c)) := by
    intro c alone step d
    exact silent_rests up fun _ h => by rw [alone] at h; cases h
  refine (preStep_ends up (fun _ => plain rfl) going).imp fun go r s goes => ?_
  cases go with
  | false => exact goes
  | true =>
  refine meets_bind.mpr ((preStep_ends up (fun _ => plain rfl) goes).imp fun go r s goes => ?_)
  cases go with
  | false => exact goes
  | true =>
  refine meets_bind.mpr ((preStep_ends up (fun _ => preliminaryStep_rests up) goes).imp fun go r s goes => ?_)
  cases go with
  | false => exact goes
  | true =>
  have going : Going I r s := goes
  refine meets_bind.mpr (going_rests (fun _ => ask_rests up (show EngineOp.IsQuiet .cancel from trivial)) going fun cancel r s _ going => ?_)
  split
  · exact endNow_ends up going
  · cases replaced : previous with
    | none => exact firstDeployment_ends up going
    | some prev => exact replacement_ends up replaced going

theorem finish_upholds (inv : Holds I r s) : Ends see rule I Run.finish (fun _ => Holds I) r s := by
  have cleaned : Ends see rule I Run.cleanup (fun _ => Holds I) r s := by
    refine meets_bind.mpr (meets_get.mpr ?_)
    split
    · exact inv
    · split
      · refine meets_bind.mpr ((onLedger_rests (reconcile_tidies up) r s ⟨rfl, inv⟩).mono ?_ ?_)
        · intro _ r' s' steady
          exact (show I r'.d r'.ledger s' from steady.same.symm ▸ steady.inv)
        · intro _ r' s' steady
          exact (show I r'.d r'.ledger s' from steady.same.symm ▸ steady.inv)
      · exact inv
  exact meets_bind.mpr (cleaned.imp fun _ _ _ inv => meets_bind.mpr (meets_get.mpr inv))

/-- The run upholds what its steps do. -/
theorem run_ends (inv : Holds I r s) :
    Ends see rule I (do Run.drive cfg previous; Run.finish) (fun _ => Holds I) r s :=
  meets_bind.mpr ((drive_ends up inv).imp fun _ _ _ inv => finish_upholds up inv)

omit up

end

/-! ## An explicit recovery -/

/-- What an explicit recovery upholds: its two edits are each followed by a write. -/
structure UpholdsRecovery {σ : Type} (cfg : RunConfig) (prev : PreviousRelease) (see : σ → Event EngineSig → σ)
    (rule : σ → EngineOp → Prop) (Time : σ → Nat → Prop) (Pin : σ → ReleaseConfig → Prop)
    (I : Deployment → Ledger → σ → Prop) : Prop extends Upholds cfg (some prev) see rule Time Pin I where
  begins {d d' : Deployment} {l : Ledger} {s : σ} {ms : Nat} (replaces : d.replaces = some prev.release)
    (time : Time s ms) (begun : d.beginExplicitRecovery cfg.policy.restoreBudgetMs ms = .ok d') (inv : I d l s) :
    rule s (.persist d') ∧ ∀ answer, I d' l (see s ⟨.persist d', answer⟩)
  ends {d d₁ d' : Deployment} {l : Ledger} {s : σ} {outcome : RecoveryOutcome} {ms : Nat} (time : Time s ms)
    (finished : d.finishRecovery outcome ms = .ok d₁)
    (stepped : d₁.finishStep .recovery outcome.serviceRestored outcome.asStr ms = .ok d') (inv : I d l s) :
    rule s (.persist d') ∧ ∀ answer, I d' l (see s ⟨.persist d', answer⟩)

section

variable {σ : Type} {cfg : RunConfig} {prev : PreviousRelease} {see : σ → Event EngineSig → σ}
  {rule : σ → EngineOp → Prop} {Time : σ → Nat → Prop} {Pin : σ → ReleaseConfig → Prop}
  {I : Deployment → Ledger → σ → Prop} (up : UpholdsRecovery cfg prev see rule Time Pin I) {r : Run} {s : σ}

include up

theorem recoveryBlockers_rests {budget : Nat} {d : Deployment} :
    Rests see rule I d (Run.recoveryBlockers cfg prev budget) := by
  unfold Run.recoveryBlockers
  split
  · exact .pure
  · refine (plain_rests up.toUpholds (c := .restoreBlockers prev) fun _ same => same).bind fun checked => ?_
    dsimp only
    split
    · exact .pure
    · exact .pure

omit up

/-- The write after an edit. -/
theorem save_after {post : Unit → Run → σ → Prop}
    (allowed : rule s (.persist r.d) ∧ ∀ answer, I r.d r.ledger (see s ⟨.persist r.d, answer⟩))
    (h : ∀ s', I r.d r.ledger s' → post () r s') :
    Meets see rule Run.save post (fun _ _ s => ∃ d l, I d l s) r s := by
  refine meets_bind.mpr (meets_get.mpr (meets_bind.mpr (meets_ask.mpr ⟨allowed.1, fun answer => ?_⟩)))
  have inv := allowed.2 answer
  cases answer with
  | acknowledged => exact h _ inv
  | failed e stored => exact ⟨_, _, inv⟩

theorem change_after {f : Deployment → Except TransitionError Deployment} {post : Unit → Run → σ → Prop}
    (inv : ∃ d l, I d l s) (h : ∀ d', f r.d = .ok d' → post () { r with d := d' } s) :
    Meets see rule (Run.change f) post (fun _ _ s => ∃ d l, I d l s) r s := by
  refine meets_bind.mpr (meets_get.mpr ?_)
  split
  next d' changed => exact h d' changed
  · exact inv

include up

/-- However an explicit recovery ends, the invariant holds of what it last wrote. -/
theorem recover_ends (inv : I r.d r.ledger s) : Meets see rule (Run.recover cfg prev)
    (fun _ r s => I r.d r.ledger s) (fun _ _ s => ∃ d l, I d l s) r s := by
  have left : ∀ {α : Type} {x : RunM α} {post : α → Run → σ → Prop} {r : Run} {s : σ},
      Ends see rule I x post r s → Meets see rule x post (fun _ _ s => ∃ d l, I d l s) r s :=
    fun ends => ends.mono (fun _ _ _ => id) fun _ _ _ inv => ⟨_, _, inv⟩
  refine meets_bind.mpr (meets_get.mpr ?_)
  split
  · exact ⟨_, _, inv⟩
  · split
    · exact ⟨_, _, inv⟩
    next replaces =>
    have replaces : r.d.replaces = some prev.release := Decidable.not_not.mp replaces
    refine meets_bind.mpr (left (ends_rests (fun _ => recoveryBlockers_rests up) inv fun found r₁ s₁ same inv => ?_))
    split
    · exact meets_bind.mpr (meets_get.mpr inv)
    · refine meets_bind.mpr (left (now_ends up.toUpholds inv fun ms s₂ inv time => meets_bind.mpr ?_))
      refine change_after ⟨_, _, inv⟩ fun d₂ begun => meets_bind.mpr ?_
      have replaces₁ : r₁.d.replaces = some prev.release := same ▸ replaces
      refine save_after (up.begins replaces₁ time begun inv) fun s₃ inv => meets_bind.mpr ?_
      refine left (ends_rests (fun _ => restorePhase_rests up.toUpholds) inv fun outcome r₄ s₄ _ inv => ?_)
      refine meets_bind.mpr (left (now_ends up.toUpholds inv fun ms s₅ inv time => meets_bind.mpr ?_))
      refine change_after ⟨_, _, inv⟩ fun d₅ finished => meets_bind.mpr ?_
      refine change_after ⟨_, _, inv⟩ fun d₆ stepped => meets_bind.mpr ?_
      exact save_after (up.ends time finished stepped inv) fun s₆ inv => meets_bind.mpr (meets_get.mpr inv)

omit up

end

end Harpoon.Deploy
