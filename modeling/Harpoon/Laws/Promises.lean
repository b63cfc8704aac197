import Harpoon.Laws.Outcome

/-!
# What a run promises

The results about one run, each read off the protocol it keeps (`run_lawful`) or the way it ends
(`run_reported`, `run_stopped`): what is on disk before the previous release is stopped, when the new
release is stopped before the previous one comes back, what success took, and that the state machine
never refuses the engine.
-/

namespace Harpoon.Deploy

open Interact

/-- The history makes the call `c`, after `before`. -/
def CallsAfter (h before : History EngineSig) (c : Call) : Prop :=
  ∃ budgetMs script after, h = before ++ ⟨.call c budgetMs, script⟩ :: after

/-- The start of the history up to the first call of a kind, and that call. -/
def untilCall (kind : Call → Bool) : History EngineSig → Option (History EngineSig × Call)
  | [] => none
  | ⟨.call c budgetMs, script⟩ :: h =>
    if kind c then some ([], c)
    else (untilCall kind h).map fun found => (⟨.call c budgetMs, script⟩ :: found.1, found.2)
  | e :: h => (untilCall kind h).map fun found => (e :: found.1, found.2)

theorem CallsAfter.cons {h before : History EngineSig} {c : Call} (e : Event EngineSig)
    (calls : CallsAfter h before c) : CallsAfter (e :: h) (e :: before) c := by
  obtain ⟨budgetMs, script, after, rfl⟩ := calls
  exact ⟨budgetMs, script, after, rfl⟩

theorem untilCall_spec {kind : Call → Bool} {h : History EngineSig} {found : History EngineSig × Call}
    (split : untilCall kind h = some found) : CallsAfter h found.1 found.2 ∧ kind found.2 = true := by
  induction h generalizing found with
  | nil => cases split
  | cons e h ih =>
    have later : (untilCall kind h).map (fun found => (e :: found.1, found.2)) = some found →
        CallsAfter (e :: h) found.1 found.2 ∧ kind found.2 = true := by
      intro split
      obtain ⟨rest, found', rfl⟩ := Option.map_eq_some_iff.mp split
      exact ⟨(ih found').1.cons e, (ih found').2⟩
    obtain ⟨op, answer⟩ := e
    cases op with
    | call c budgetMs =>
      rw [untilCall] at split
      split at split
      next this => cases split; exact ⟨⟨budgetMs, answer, h, rfl⟩, this⟩
      next => exact later split
    | _ => exact later split

/-- A first call found by search, and what a check says about it. -/
theorem calls_of_untilCall {kind : Call → Bool} {h : History EngineSig}
    {check : History EngineSig × Call → Bool} (found : (untilCall kind h).any check = true) :
    ∃ before c, CallsAfter h before c ∧ kind c = true ∧ check (before, c) = true := by
  obtain ⟨⟨before, c⟩, split, checked⟩ := (Option.any_eq_true _ _).mp found
  obtain ⟨calls, isKind⟩ := untilCall_spec split
  exact ⟨before, c, calls, isKind, checked⟩

/-! ## A replacement to look at -/

namespace Replaced

def dep : DeploymentId := ⟨5#128⟩

/-- The release that is serving. -/
def serving : ReleaseId := ⟨4#128⟩

def queued : Deployment := { Deployment.new dep ⟨1#128⟩ .manual 0 with status := .queued }

def ctx : Context := ⟨some serving⟩

def pinned : ReleaseConfig :=
  { imageId := "sha256:4", imageTag := "harpoon/app:4", containerPort := 80, hostPort := 8080
    health := ⟨"/", .success2xx, 500, 1, 30000⟩, memoryBytes := 0, nanoCpus := 0, pids := 0, env := []
    secrets := [], snapshot := none, build := none }

def cfg : RunConfig := { RunConfig.default with previous := some pinned }

def prev : PreviousRelease := ⟨serving, serving.deployment, some pinned, none⟩

def healthy : CheckEvidence :=
  { target := "/", expected := "2xx", expect := .success2xx, simulated := false
    attempts := [⟨0, .status 200, true⟩], consecutiveRequired := 1, consecutiveReached := 1
    elapsedMs := 0, verdict := .healthy, scopeNote := "" }

/-- What each call returns when it goes well. -/
def value : (c : Call) → c.Ret
  | .preliminaryCheck | .finalCheck => healthy
  | .planRelease => some { pinned with imageId := "sha256:5", imageTag := "harpoon/app:5" }
  | .restoreBlockers _ => []
  | .restorePrevious _ _ => .healthy
  | .prepareSource | .build | .stopCurrent _ | .startNew | .stopNew => ()

/-- Surroundings in which the build records the intent of its image, that write becomes `written`, and
the calls in `failing` fail. -/
def answers (written : Written) (failing : Call → Bool) : (op : EngineOp) → op.Answer
  | .call .build _ => .ask (.intend ⟨.image, "harpoon/app:5"⟩ .retain) fun _ => .done ()
  | .call _ _ => .done ()
  | .result c => if failing c then .error (.new "failed") else .ok (value c)
  | .record _ => written
  | .persist _ => .acknowledged
  | .nowMs => 0
  | .cancel | .acceptsSimulatedEvidence => false
  | .confirm _ | .supportsCutover => true
  | .listResources => .ok []
  | .removeResource _ => .ok .removed
  | .pinnedConfig => none

def played (written : Written) (failing : Call → Bool) :
    History EngineSig × Except EngineError Report × Run :=
  (runDeploymentConfirmed queued ctx cfg).play (answers written failing)

theorem played_follows (written : Written) (failing : Call → Bool) :
    Program.Follows (runDeploymentConfirmed queued ctx cfg) (played written failing).1
      (.done ((played written failing).2.1, (played written failing).2.2)) := by
  have run : Program.Follows (runDeploymentConfirmed queued ctx cfg) (played written failing).1
      (.done (played written failing).2) := Program.play_follows _ _
  -- Nothing of the run may be evaluated here.
  generalize played written failing = p at run ⊢
  exact run

theorem queued_fresh : queued.Fresh := ⟨rfl, fun s => by cases s <;> rfl, rfl, rfl⟩

end Replaced

section

variable {d : Deployment} {ctx : Context} {cfg : RunConfig} {h before : History EngineSig}
  {q : Program EngineSig (Except EngineError Report × Run)}

/-- The call was allowed when it was made. -/
theorem run_calls {c : Call} (follows : Program.Follows (runDeploymentConfirmed d ctx cfg) h q)
    (calls : CallsAfter h before c) :
    ∃ budgetMs, Rule cfg (previousOf ctx cfg) d (Trail.of before) (.call c budgetMs) := by
  obtain ⟨budgetMs, script, after, rfl⟩ := calls
  exact ⟨budgetMs, (run_lawful follows).at⟩

/-! ## Write-ahead -/

/-- Before the previous release is stopped, the last snapshot that the journal acknowledged says so:
the deployment is running, its checks succeeded, its cutover has begun, it replaces that release and
pins what was planned. No write that was reported as failed came before. -/
theorem stop_is_written_ahead {prev : PreviousRelease}
    (follows : Program.Follows (runDeploymentConfirmed d ctx cfg) h q)
    (calls : CallsAfter h before (.stopCurrent prev)) :
    (Trail.of before).lost = false ∧
      ∃ snapshot, (Trail.of before).acked = some snapshot ∧
        WriteAhead d prev (Trail.of before).calls snapshot := by
  obtain ⟨_, kept_all, snapshot, acked, _, ahead⟩ := run_calls follows calls
  exact ⟨kept_all, snapshot, acked, ahead⟩

theorem stop_is_written_ahead_replaced :
    ∃ before, CallsAfter (Replaced.played .acknowledged fun _ => false).1 before
        (.stopCurrent Replaced.prev) ∧
      (Trail.of before).lost = false ∧
        ∃ snapshot, (Trail.of before).acked = some snapshot ∧
          WriteAhead Replaced.queued Replaced.prev (Trail.of before).calls snapshot := by
  have found : ((untilCall Call.isStopCurrent (Replaced.played .acknowledged fun _ => false).1).any
      fun x => x.2 = .stopCurrent Replaced.prev) = true := by decide +kernel
  obtain ⟨before, c, calls, _, same⟩ := calls_of_untilCall found
  obtain rfl : c = .stopCurrent Replaced.prev := of_decide_eq_true same
  exact ⟨before, calls, stop_is_written_ahead (Replaced.played_follows _ _) calls⟩

/-- A write was reported as failed. -/
def lostWrite : Event EngineSig → Bool
  | ⟨.persist _, .failed _ _⟩ | ⟨.record _, .failed _ _⟩ => true
  | _ => false

/-- A write that failed inside a call does not prevent the stop, if the call does not report it. -/
theorem stop_after_lost_write :
    ¬ ∀ d ctx cfg h q before prev, d.Fresh → Program.Follows (runDeploymentConfirmed d ctx cfg) h q →
      CallsAfter h before (.stopCurrent prev) →
      (∃ snapshot, (Trail.of before).acked = some snapshot ∧
        WriteAhead d prev (Trail.of before).calls snapshot) ∧
      ∀ e ∈ before, lostWrite e = false := by
  intro never
  have found : ((untilCall Call.isStopCurrent
      (Replaced.played (.failed .crash false) fun _ => false).1).any fun x => x.1.any lostWrite) = true := by
    decide +kernel
  obtain ⟨before, c, calls, kind, lost⟩ := calls_of_untilCall found
  obtain ⟨e, mem, isLost⟩ := List.any_eq_true.mp lost
  cases c with
  | stopCurrent prev =>
    have kept := (never _ _ _ _ _ before prev Replaced.queued_fresh (Replaced.played_follows _ _) calls).2
    exact absurd ((kept e mem).symm.trans isLost) Bool.false_ne_true
  | _ => cases kind

/-! ## One release at a time -/

/-- A new release that started in time is stopped again before the previous one is restored; one whose
start returned an error is not stopped. -/
theorem new_release_stopped_first (follows : Program.Follows (runDeploymentConfirmed d ctx cfg) h q) :
    (∀ before prev budgetMs, CallsAfter h before (.restorePrevious prev budgetMs) →
      FreedFirst (Trail.of before).calls) ∧
    ∀ before, CallsAfter h before .stopNew → ∀ c ∈ (Trail.of before).calls, c.call = .startNew →
      ∀ e, c.returned ≠ some ⟨.startNew, .error e⟩ := by
  constructor
  · intro before prev budgetMs calls
    obtain ⟨_, _, _, _, freed⟩ := run_calls follows calls
    exact freed
  · intro before calls c mem isStart e failed
    obtain ⟨_, inTime⟩ := run_calls follows calls
    exact (inTime c mem isStart).not_error failed

theorem new_release_stopped_first_replaced :
    ∃ before prev budgetMs, CallsAfter
        (Replaced.played .acknowledged fun c => c = .finalCheck).1 before (.restorePrevious prev budgetMs) ∧
      FreedFirst (Trail.of before).calls ∧ made (fun c => c = .startNew) (Trail.of before).calls := by
  have found : ((untilCall Call.isRestorePrevious
      (Replaced.played .acknowledged fun c => c = .finalCheck).1).any fun x =>
        made (fun c => c = .startNew) (Trail.of x.1).calls) = true := by decide +kernel
  obtain ⟨before, c, calls, kind, started⟩ := calls_of_untilCall found
  cases c with
  | restorePrevious prev budgetMs =>
    have freed := (new_release_stopped_first (Replaced.played_follows _ _)).1 before prev budgetMs calls
    exact ⟨before, prev, budgetMs, calls, freed, started⟩
  | _ => cases kind

/-- A new release whose start failed is not stopped before the previous one is restored. -/
theorem restore_beside_new_release :
    ¬ ∀ d ctx cfg h q before prev budgetMs,
      Program.Follows (runDeploymentConfirmed d ctx cfg) h q →
      CallsAfter h before (.restorePrevious prev budgetMs) →
      made (fun c => c = .startNew) (Trail.of before).calls →
      ((Trail.of before).stored.all fun d => !d.cutover.isConfirmed) →
      made (fun c => c = .stopNew) (Trail.of before).calls := by
  intro never
  have found : ((untilCall Call.isRestorePrevious
      (Replaced.played .acknowledged fun c => c = .startNew).1).any fun x =>
        made (fun c => c = .startNew) (Trail.of x.1).calls &&
        (Trail.of x.1).stored.all (fun d => !d.cutover.isConfirmed) &&
        !made (fun c => c = .stopNew) (Trail.of x.1).calls) = true := by decide +kernel
  obtain ⟨before, c, calls, kind, found⟩ := calls_of_untilCall found
  obtain ⟨⟨started, unconfirmed⟩, kept⟩ : (_ ∧ _) ∧ _ := by simpa only [Bool.and_eq_true] using found
  cases c with
  | restorePrevious prev budgetMs =>
    have stopped := never _ _ _ _ _ before prev budgetMs (Replaced.played_follows _ _) calls started
      unconfirmed
    rw [stopped] at kept
    cases kept
  | _ => cases kind

/-! ## How a run ends -/

variable {out : Except EngineError Report} {r : Run}

theorem run_kept (follows : Program.Follows (runDeploymentConfirmed d ctx cfg) h (.done (out, r))) :
    Kept cfg (previousOf ctx cfg) d r.d (Trail.of h).calls := by
  cases out with
  | ok report => exact (run_reported follows).kept
  | error e => exact (run_stopped follows).2

/-- A run that succeeded made exactly the calls that success needs, and each was earned: it returned
in its budget, and the evidence of the two checks stands. -/
theorem success_is_earned
    (follows : Program.Follows (runDeploymentConfirmed d ctx cfg) h (.done (out, r))) :
    (∀ report, out = .ok report → report.status = .succeeded →
      Won cfg (previousOf ctx cfg) (Trail.of h).calls) ∧
    (d.status ≠ .succeeded → r.d.status = .succeeded →
      Won cfg (previousOf ctx cfg) (Trail.of h).calls) := by
  have kept := run_kept follows
  constructor
  · rintro report rfl succeeded
    have reported := run_reported follows
    exact (kept.won (reported.status.symm.trans succeeded)).resolve_left reported.opened
  · exact fun opened succeeded => (kept.won succeeded).resolve_left opened

theorem success_is_earned_replaced :
    Won Replaced.cfg (some Replaced.prev) (Trail.of (Replaced.played .acknowledged fun _ => false).1).calls :=
  (success_is_earned (Replaced.played_follows .acknowledged fun _ => false)).2 (by decide)
    (by decide +kernel)

/-- The state machine never refuses the engine; and a run that returns a report leaves a terminal
deployment, as the journal last acknowledged it. -/
theorem fresh_run_ends (fresh : d.Fresh)
    (follows : Program.Follows (runDeploymentConfirmed d ctx cfg) h (.done (out, r))) :
    (∀ e, out ≠ .error (.transition e)) ∧
    ∀ report, out = .ok report →
      r.d.status.isTerminal = true ∧ (Trail.of h).acked = some r.d := by
  constructor
  · rintro e rfl
    exact (run_stopped follows).1 fresh
  · rintro report rfl
    have reported := run_reported follows
    exact ⟨reported.terminal, reported.acked⟩

theorem fresh_run_ends_replaced :
    (Replaced.played .acknowledged fun c => c = .startNew).2.2.d.status.isTerminal = true ∧
      (Trail.of (Replaced.played .acknowledged fun c => c = .startNew).1).acked =
        some (Replaced.played .acknowledged fun c => c = .startNew).2.2.d := by
  have ended := fresh_run_ends Replaced.queued_fresh
    (Replaced.played_follows .acknowledged fun c => c = .startNew)
  have reported : (Replaced.played .acknowledged fun c => c = .startNew).2.1.isOk = true := by
    decide +kernel
  cases out : (Replaced.played .acknowledged fun c => c = .startNew).2.1 with
  | ok report => exact ended.2 report out
  | error e => rw [out] at reported; cases reported

end

end Harpoon.Deploy
