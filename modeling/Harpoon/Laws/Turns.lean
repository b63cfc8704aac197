import Harpoon.Laws.Outcome
import Harpoon.Laws.Upheld

/-!
# Whose turn it is

Between two calls of the backend the engine writes no ledger record once the new release is planned,
until it makes no more calls; nor does it call again after a record of its own was lost. The final check comes only after the engine asked what the new release
runs with, and no other call is between. `Turn` follows a run as far as these laws need.
-/

namespace Harpoon.Deploy

open Interact Process

structure Turn where
  /-- A call has begun and not returned. -/
  inCall : Bool
  /-- A release was planned. -/
  planned : Bool
  /-- The pinned configuration was asked since the last call began. -/
  asked : Bool
  /-- No call follows. -/
  shut : Bool

namespace Turn

def start : Turn := ⟨false, false, false, false⟩

/-- After a call that returned. -/
def called (t : Turn) (c : Call) : Turn := { t with planned := t.planned || c = .planRelease, asked := false }

def see (t : Turn) : Event EngineSig → Turn
  | ⟨.call c _, _⟩ => { t.called c with inCall := true }
  | ⟨.result _, res⟩ => { t with inCall := false, shut := t.shut || fatalIn res }
  | ⟨.record _, w⟩ => if !t.inCall && (t.planned || !w.isAcknowledged) then { t with shut := true } else t
  | ⟨.pinnedConfig, _⟩ => { t with asked := true }
  | _ => t

def Rule (t : Turn) : EngineOp → Prop
  | .call c _ => t.shut = false ∧ (c = .finalCheck → t.asked = true)
  | _ => True

/-- The engine's turn, and a call may follow. -/
structure Open (t : Turn) : Prop where
  idle : t.inCall = false
  opened : t.shut = false

theorem Open.called {t : Turn} (open_ : t.Open) (c : Call) : (t.called c).Open := ⟨open_.idle, open_.opened⟩

/-- No release was planned yet. -/
structure Early (t : Turn) : Prop extends Open t where
  early : t.planned = false

theorem Early.called {t : Turn} (early : t.Early) {c : Call} (other : c ≠ .planRelease) : (t.called c).Early where
  toOpen := early.toOpen.called c
  early := by simp [Turn.called, early.early, other]

end Turn

section

variable {ρ ε α β : Type} {c : Call} {t : Turn} {cfg : RunConfig} {step : Step} {budget : Nat} {f : StepFn α} {I : Turn → Prop}

abbrev Takes (I : Turn → Prop) (x : Engine ρ ε α) : Prop := x.Keeps Turn.see Turn.Rule I fun _ => True

/-! ## Calls -/

theorem script_turns (inCall : t.inCall = true) :
    Simulates (fun (_ : Unit) _ => ()) (fun _ => ScriptOp) Turn.see Turn.Rule fun _ t' => t' = t where
  allowed := fun _ _ op _ allowed => by
    cases op with
    | record _ | nowMs => trivial
    | _ => cases allowed
  step := by
    rintro _ _ ⟨op, answer⟩ rfl allowed
    cases op with
    | record r => exact if_neg (by simp [inCall])
    | nowMs => rfl
    | _ => cases allowed

/-- A step that calls the backend once gives the turn back, unless a write failed. -/
def TakesTurn (c : Call) (f : StepFn α) : Prop :=
  ∀ io t, t.Open → (c = .finalCheck → t.asked = true) →
    Meets Turn.see Turn.Rule f (fun _ _ t' => t' = t.called c) (fun e _ t' => e.fatal = none → t' = t.called c) io t

theorem callBackend_turns : TakesTurn c (StepIo.callBackend c) := by
  intro io t open_ asked
  refine meets_bind.mpr (meets_get.mpr (meets_bind.mpr (meets_ask.mpr ⟨⟨open_.opened, asked⟩, fun script => ?_⟩)))
  have scripts : Scripts (fun _ => False) (StepIo.runScript script : Engine StepIo StepError Unit) :=
    runScript_scripts script
  have ran := scripts.simulate (r := io) (script_turns (t := { t.called c with inCall := true }) rfl) (s := ()) trivial rfl
  refine meets_bind.mpr (ran.mono ?_ fun e _ _ h => h.1.elim)
  rintro _ io' _ ⟨_, _, rfl⟩
  refine meets_bind.mpr (meets_ask.mpr ⟨trivial, fun res => ?_⟩)
  have back : fatalIn res = false → Turn.see { t.called c with inCall := true } ⟨.result c, res⟩ = t.called c := by
    intro plain
    show ({ t.called c with inCall := false, shut := t.shut || fatalIn res } : Turn) = _
    rw [plain, Bool.or_false, ← (open_.called c).idle]
    rfl
  refine meets_ofExcept ?_ ?_
  · rintro v rfl
    exact back rfl
  · rintro e rfl plain
    exact back (by rw [fatalIn, show e.fatal = none from plain]; rfl)

/-- A call whose value is changed. -/
theorem mapped_turns {g : c.Ret → α} : TakesTurn c (StepIo.callBackend c >>= fun v => pure (g v)) :=
  fun io t open_ asked => meets_bind.mpr ((callBackend_turns io t open_ asked).imp fun _ _ _ same => same)

theorem preliminaryStep_turns : TakesTurn .preliminaryCheck Run.preliminaryStep := by
  intro io t open_ asked
  refine meets_bind.mpr (meets_attempt.mpr ((callBackend_turns io t open_ asked).mono ?_ ?_))
  · intro v _ t' same
    refine meets_bind.mpr (meets_ask.mpr ⟨trivial, fun a => meets_ofExcept (fun _ _ => same) fun _ _ _ => same⟩)
  · intro e _ t' plain
    refine meets_bind.mpr (meets_ask.mpr ⟨trivial, fun a => meets_ofExcept (fun _ judged => ?_) fun e' judged => ?_⟩)
    · cases judged
    · cases judged
      exact plain

theorem exec_turns {r : Run} (takes : TakesTurn c f) (open_ : t.Open) (asked : c = .finalCheck → t.asked = true) :
    Meets Turn.see Turn.Rule (Run.exec cfg step budget f) (fun _ _ t' => t' = t.called c) (fun _ _ _ => True) r t := by
  refine meets_bind.mpr (meets_ask.mpr ⟨trivial, fun start => meets_bind.mpr (meets_get.mpr (meets_bind.mpr ?_))⟩)
  refine meets_embed_of (Q := fun got _ t' => (∀ e, got = .error e → e.fatal = none) → t' = t.called c)
    ((takes _ t open_ asked).mono (fun _ _ _ same _ => same) fun e _ _ same plain => same (plain e rfl)) ?_
  intro got io t' same
  refine meets_bind.mpr (meets_modify.mpr (meets_bind.mpr (meets_ask.mpr ⟨trivial, fun ms => ?_⟩)))
  refine meets_bind.mpr (meets_modify.mpr ?_)
  cases got with
  | error e =>
    dsimp only
    cases fatal : e.fatal with
    | some j => trivial
    | none => exact same fun e' eq => by cases eq; exact fatal
  | ok v =>
    dsimp only
    split <;> exact same fun _ no => nomatch no

/-! ## What leaves the turn alone -/

/-- The code leaves the turn as it is. -/
abbrev Idle (x : Engine ρ ε α) : Prop := ∀ t, Takes (fun t' => t' = t) x

theorem Idle.takes {x : Engine ρ ε α} (idle : Idle x) : Takes I x := fun r t inv =>
  (idle t r t rfl).imp fun _ _ _ same => same ▸ inv

theorem Idle.bind {x : Engine ρ ε α} {f : α → Engine ρ ε β} (first : Idle x) (second : ∀ v, Idle (f v)) : Idle (x >>= f) :=
  fun t => (first t).bind fun v => second v t

theorem notes_idle {x : RunM α} (notes : Notes Turn.see Turn.Rule x) : Idle x := fun _ r t same =>
  (notes r t).mono (fun _ _ _ kept => kept.2.2.trans same) fun _ _ _ none => none.elim

theorem now_idle : Idle (now : Engine ρ ε Nat) := fun _ _ _ same => ⟨trivial, fun _ => same⟩

theorem modify_idle {g : ρ → ρ} : Idle (modify g : Engine ρ ε PUnit) := fun _ => .modify

theorem save_idle : Idle Run.save := fun _ r _ same => by
  refine meets_bind.mpr (meets_get.mpr (meets_bind.mpr (meets_ask.mpr ⟨trivial, fun answer => ?_⟩)))
  cases answer with
  | acknowledged => exact same
  | failed e stored => trivial

theorem change_idle {g : Deployment → Except TransitionError Deployment} : Idle (Run.change g) := fun _ r _ same => by
  refine meets_bind.mpr (meets_get.mpr ?_)
  split
  · exact same
  · trivial

theorem endFailed_idle {kind : FailureKind} {message : String} {timedOut : Bool} {ms : Nat} :
    Idle (Run.endFailed step kind message timedOut ms) :=
  modify_idle.bind fun _ => change_idle.bind fun _ => save_idle

theorem endCancelled_idle : Idle Run.endCancelled := now_idle.bind fun _ => change_idle.bind fun _ => save_idle

theorem succeed_idle : Idle Run.succeed := now_idle.bind fun _ => change_idle.bind fun _ => save_idle

theorem endStep_idle {kind : FailureKind} {elapsed : Nat} {res : Except StepError (Option CheckEvidence)} :
    Idle (Run.endStep cfg step kind elapsed res) := by
  cases res with
  | ok ev =>
    exact now_idle.bind fun _ => (notes_idle keepEvidence_notes).bind fun _ => change_idle.bind fun _ =>
      modify_idle.bind fun _ => save_idle.bind fun _ => fun _ => .pure
  | error e =>
    exact now_idle.bind fun _ => (notes_idle describe_notes).bind fun _ => change_idle.bind fun _ =>
      endFailed_idle.bind fun _ => fun _ => .pure

/-- Before a release is planned, cleanup takes no turn unless a record is lost. -/
theorem cleanup_turns {writes : LedgerRecord → Prop} (early : t.planned = false) :
    Simulates lose (fun _ => CleanupOp writes) Turn.see Turn.Rule fun lost t' => lost = false → t' = t where
  allowed := fun _ _ op _ allowed => by
    cases op with
    | record _ | nowMs | listResources | removeResource _ => trivial
    | _ => cases allowed
  step := by
    rintro lost t' ⟨op, answer⟩ same allowed kept
    cases op with
    | record r =>
      cases answer with
      | acknowledged =>
        rw [same kept]
        exact if_neg (by simp [early, Written.isAcknowledged])
      | failed e stored => cases kept
    | nowMs | listResources | removeResource _ => exact same kept
    | _ => cases allowed

theorem settlePreliminary_turns {firstNew : Nat} {res : Except StepError β} :
    Takes Turn.Early (Run.settlePreliminary firstNew res) := by
  intro r t early
  refine meets_bind.mpr (meets_get.mpr (meets_bind.mpr (meets_zoom.mpr ?_)))
  have ran := (releasePreliminary_cleans r.d.id firstNew).simulate (r := r.ledger) (cleanup_turns early.early) rfl
    fun _ => rfl
  refine ran.mono ?_ fun _ _ _ _ => trivial
  rintro stuck _ t' ⟨_, kept, same⟩
  rw [same kept]
  cases stuck with
  | none => exact early
  | some problem =>
    cases res with
    | ok v => exact early
    | error e => exact (notes_idle warn_notes).takes.bind (fun _ => .pure) _ _ early

/-! ## The run -/

theorem preStep_turns {kind : FailureKind} {f : StepFn (Option CheckEvidence)} (takes : TakesTurn c f)
    (other : c ≠ .planRelease ∧ c ≠ .finalCheck) : Takes Turn.Early (Run.preStep cfg step kind f) := by
  have called : ∀ {budget}, Takes Turn.Early (Run.exec cfg step budget f) := fun r t early =>
    (exec_turns takes early.toOpen fun final => absurd final other.2).imp fun _ _ _ same => same ▸ early.called other.1
  refine Keeps.bind (fun _ _ early => ⟨trivial, fun _ => early⟩) fun cancelled => ?_
  split
  · exact endCancelled_idle.takes.bind fun _ => .pure
  · refine now_idle.takes.bind fun _ => change_idle.takes.bind fun _ => save_idle.takes.bind fun _ => Keeps.get.bind fun r => ?_
    refine called.bind fun out => ?_
    split
    · exact settlePreliminary_turns.bind fun res => endStep_idle.takes
    · exact endStep_idle.takes

/-- A call other than the final check. -/
theorem call_turns (takes : TakesTurn c f) (other : c ≠ .finalCheck) : Takes Turn.Open (Run.exec cfg step budget f) :=
  fun _ _ open_ => (exec_turns takes open_ fun final => absurd final other).imp fun _ _ _ same => same ▸ open_.called c

theorem planAndPin_turns : Takes Turn.Open (Run.planAndPin cfg) := by
  refine Keeps.bind (call_turns callBackend_turns (by decide)) fun out => ?_
  split
  · exact modify_idle.takes.bind fun _ => save_idle.takes.bind fun _ => .pure
  · exact .pure
  · exact (notes_idle describe_notes).takes.bind fun _ => now_idle.takes.bind fun _ => endFailed_idle.takes.bind fun _ => .pure

theorem cutoverCall_turns (other : c ≠ .finalCheck) : Takes Turn.Open (Run.cutoverCall cfg c) := by
  refine Keeps.bind (call_turns mapped_turns other) fun out => ?_
  split
  · exact .pure
  · exact (notes_idle failure_notes).takes.bind fun _ => .pure

/-- The engine's turn, with the pinned configuration asked for. -/
structure Turn.Asked (t : Turn) : Prop extends Turn.Open t where
  asked : t.asked = true

/-- The code takes the turn from `I` to `J`. -/
abbrev Leads (I J : Turn → Prop) (x : Engine ρ ε α) : Prop :=
  ∀ r t, I t → Meets Turn.see Turn.Rule x (fun _ _ => J) (fun _ _ _ => True) r t

theorem Leads.bind {J K : Turn → Prop} {x : Engine ρ ε α} {g : α → Engine ρ ε β} (first : Leads I J x)
    (second : ∀ v, Leads J K (g v)) : Leads I K (x >>= g) :=
  fun r t inv => meets_bind.mpr ((first r t inv).imp fun v r t inv => second v r t inv)

theorem repin_turns : Leads Turn.Open Turn.Asked Run.repin := by
  refine Leads.bind (J := Turn.Asked) (fun _ _ open_ => ⟨trivial, fun pinned => ⟨⟨open_.idle, open_.opened⟩, rfl⟩⟩) fun pinned => ?_
  cases pinned with
  | none => exact Keeps.pure
  | some actual =>
    refine Keeps.get.bind fun r => ?_
    split
    · exact modify_idle.takes.bind fun _ => save_idle.takes
    · exact .pure

theorem finalCheck_turns : Leads Turn.Asked Turn.Open (Run.finalCheck cfg) := by
  refine Leads.bind (J := Turn.Open) (fun r t asked => ?_) fun out => ?_
  · refine (exec_turns callBackend_turns asked.toOpen fun _ => asked.asked).imp ?_
    rintro out r' _ rfl
    exact asked.toOpen.called .finalCheck
  · have judged : Takes Turn.Open (Run.judgeFinal out.res) := by
      cases out.res with
      | ok ev => exact Keeps.bind (fun _ _ open_ => ⟨trivial, fun _ => open_⟩) fun _ => .pure
      | error e => exact .pure
    refine judged.bind fun verdict => ?_
    cases verdict with
    | ok ev => exact (notes_idle keepEvidence_notes).takes.bind fun _ => .pure
    | error e => exact (notes_idle failure_notes).takes.bind fun _ => .pure

theorem stopFailedNewRelease_turns : Takes Turn.Open (Run.stopFailedNewRelease cfg) :=
  Keeps.bind (call_turns mapped_turns (by decide)) fun _ => (notes_idle warnFailed_notes).takes

theorem restorePhase_turns {previous : Option PreviousRelease} : Takes Turn.Open (Run.restorePhase cfg previous budget) := by
  cases previous with
  | none => exact .pure
  | some prev =>
    unfold Run.restorePhase
    dsimp only
    split
    · exact .pure
    · refine Keeps.bind (call_turns callBackend_turns (by simp)) fun checked => (notes_idle warnFailed_notes).takes.bind fun _ => ?_
      split
      · exact (notes_idle warn_notes).takes.bind fun _ => .pure
      · exact Keeps.bind (call_turns callBackend_turns (by simp)) fun out => (notes_idle warnNotRestored_notes).takes.bind fun _ => .pure

theorem failAfterCutover_turns {previous : Option PreviousRelease} {kind : FailureKind} {message : String}
    {timedOut newStarted : Bool} :
    Takes Turn.Open (Run.failAfterCutover cfg previous step kind message timedOut newStarted budget) := by
  have freed : Takes Turn.Open (Run.freeAddress cfg newStarted) := by
    cases newStarted with
    | true => exact stopFailedNewRelease_turns
    | false => exact .pure
  refine now_idle.takes.bind fun _ => change_idle.takes.bind fun _ => modify_idle.takes.bind fun _ => change_idle.takes.bind fun _ => ?_
  refine change_idle.takes.bind fun _ => change_idle.takes.bind fun _ => save_idle.takes.bind fun _ => freed.bind fun _ => ?_
  refine restorePhase_turns.bind fun outcome => now_idle.takes.bind fun _ => change_idle.takes.bind fun _ => ?_
  exact change_idle.takes.bind fun _ => change_idle.takes.bind fun _ => save_idle.takes

theorem firstDeployment_turns : Takes Turn.Open (Run.firstDeployment cfg) := by
  refine planAndPin_turns.bind fun go => ?_
  split
  · refine change_idle.takes.bind fun _ => now_idle.takes.bind fun _ => change_idle.takes.bind fun _ => ?_
    refine save_idle.takes.bind fun _ => (cutoverCall_turns (by decide)).bind fun started => now_idle.takes.bind fun _ => ?_
    split
    · exact change_idle.takes.bind fun _ => endFailed_idle.takes
    · refine change_idle.takes.bind fun _ => change_idle.takes.bind fun _ => repin_turns.bind fun _ => ?_
      refine Leads.bind save_idle.takes fun _ => finalCheck_turns.bind fun checked => Leads.bind now_idle.takes fun _ => ?_
      split
      · exact change_idle.takes.bind fun _ => succeed_idle.takes
      · exact change_idle.takes.bind fun _ => modify_idle.takes.bind fun _ => stopFailedNewRelease_turns.bind fun _ =>
          now_idle.takes.bind fun _ => change_idle.takes.bind fun _ => save_idle.takes
  · exact .pure

theorem cutOver_turns {prev : PreviousRelease} : Takes Turn.Open (Run.cutOver cfg prev) := by
  refine now_idle.takes.bind fun _ => modify_idle.takes.bind fun _ => change_idle.takes.bind fun _ => ?_
  refine change_idle.takes.bind fun _ => save_idle.takes.bind fun _ => (cutoverCall_turns (by simp)).bind fun stopped => ?_
  split
  · exact failAfterCutover_turns
  · refine (cutoverCall_turns (by decide)).bind fun started => ?_
    split
    · exact failAfterCutover_turns
    · refine repin_turns.bind fun _ => Leads.bind now_idle.takes fun _ => Leads.bind change_idle.takes fun _ => ?_
      refine Leads.bind change_idle.takes fun _ => Leads.bind save_idle.takes fun _ => finalCheck_turns.bind fun checked => ?_
      split
      · exact now_idle.takes.bind fun _ => change_idle.takes.bind fun _ => change_idle.takes.bind fun _ => succeed_idle.takes
      · exact failAfterCutover_turns

theorem whyNotCutOver_turns {plan : CutoverPlan} : Takes I (Run.whyNotCutOver plan) := by
  refine Keeps.bind (fun _ _ inv => ⟨trivial, fun _ => inv⟩) fun supported => ?_
  split
  · exact .pure
  · refine Keeps.bind (fun _ _ inv => ⟨trivial, fun _ => inv⟩) fun confirmed => ?_
    split <;> exact .pure

theorem replacement_turns {prev : PreviousRelease} : Takes Turn.Open (Run.replacement cfg prev) := by
  refine Keeps.get.bind fun r => whyNotCutOver_turns.bind fun why => ?_
  split
  · exact modify_idle.takes.bind fun _ => endCancelled_idle.takes
  · refine planAndPin_turns.bind fun go => ?_
    split
    · exact cutOver_turns
    · exact .pure

theorem drive_turns {previous : Option PreviousRelease} :
    Leads Turn.Early Turn.Open (Run.drive cfg previous) := by
  have early : ∀ {α} {x : RunM α}, Takes Turn.Open x → Leads Turn.Early Turn.Open x :=
    fun takes r t inv => takes r t inv.toOpen
  refine Leads.bind now_idle.takes fun _ => Leads.bind change_idle.takes fun _ => Leads.bind save_idle.takes fun _ => ?_
  refine Leads.bind (preStep_turns (c := .prepareSource) mapped_turns (by decide)) fun go => ?_
  split
  · refine Leads.bind (preStep_turns (c := .build) mapped_turns (by decide)) fun go => ?_
    split
    · refine Leads.bind (preStep_turns (c := .preliminaryCheck) preliminaryStep_turns (by decide)) fun go => ?_
      split
      · refine Leads.bind (J := Turn.Early) (fun _ _ inv => ⟨trivial, fun _ => inv⟩) fun cancelled => ?_
        split
        · exact early endCancelled_idle.takes
        · cases previous with
          | none => exact early firstDeployment_turns
          | some prev => exact early replacement_turns
      · exact early .pure
    · exact early .pure
  · exact early .pure

/-- What follows the last call. -/
theorem finish_turns : Leads Turn.Open (fun _ => True) Run.finish := by
  have tidy : ∀ {writes}, Simulates lose (fun _ => CleanupOp writes) Turn.see Turn.Rule fun _ _ => True := by
    refine fun {writes} => ⟨fun _ _ op _ allowed => ?_, fun _ _ _ _ _ => trivial⟩
    cases op with
    | record _ | nowMs | listResources | removeResource _ => trivial
    | _ => cases allowed
  refine Leads.bind (J := fun _ => True) (fun r t open_ => ?_) fun _ => Keeps.get.bind fun _ => .pure
  refine meets_bind.mpr (meets_get.mpr ?_)
  split
  · trivial
  · split
    · refine meets_bind.mpr (meets_zoom.mpr ?_)
      refine ((reconcile_cleans _).simulate (r := r.ledger) tidy rfl trivial).mono (fun _ _ _ _ => ?_) fun _ _ _ _ => trivial
      trivial
    · trivial

/-- A run keeps the order, wherever it is cut short. -/
theorem run_turns {d : Deployment} {ctx : Context} {h : History EngineSig}
    {q : Program EngineSig (Except EngineError Report × Run)}
    (follows : Program.Follows (runDeploymentConfirmed d ctx cfg) h q) : Lawful Turn.see Turn.Rule Turn.start h := by
  have runs : Leads Turn.Early (fun _ => True) (do Run.drive cfg (previousOf ctx cfg); Run.finish : RunM Report) :=
    drive_turns.bind fun _ => finish_turns
  exact (Program.Obeys.follows (runs (Run.start cfg d) Turn.start ⟨⟨rfl, rfl⟩, rfl⟩) follows).2

theorem recoveryBlockers_turns {prev : PreviousRelease} : Takes Turn.Open (Run.recoveryBlockers cfg prev budget) := by
  unfold Run.recoveryBlockers
  split
  · exact .pure
  · refine Keeps.bind (call_turns callBackend_turns (by simp)) fun checked => ?_
    dsimp only
    split <;> exact .pure

theorem recover_takes {prev : PreviousRelease} : Takes Turn.Open (Run.recover cfg prev) := by
  refine Keeps.get.bind fun r => ?_
  split
  · exact .throw trivial
  · split
    · exact .throw trivial
    · refine recoveryBlockers_turns.bind fun found => ?_
      split
      · exact Keeps.get.bind fun _ => .pure
      · refine now_idle.takes.bind fun _ => change_idle.takes.bind fun _ => save_idle.takes.bind fun _ => ?_
        refine restorePhase_turns.bind fun outcome => now_idle.takes.bind fun _ => change_idle.takes.bind fun _ => ?_
        exact change_idle.takes.bind fun _ => save_idle.takes.bind fun _ => Keeps.get.bind fun _ => .pure

/-- So does an explicit restoration. -/
theorem recover_turns {d : Deployment} {prev : PreviousRelease} {h : History EngineSig}
    {q : Program EngineSig (Except EngineError Report × Run)}
    (follows : Program.Follows (recoverCutover d prev cfg) h q) : Lawful Turn.see Turn.Rule Turn.start h :=
  (Program.Obeys.follows (recover_takes (Run.start cfg d) Turn.start ⟨rfl, rfl⟩) follows).2

end

end Harpoon.Deploy
