import Harpoon.Journal.Snapshot
import Harpoon.Laws.LedgerCodec
import Harpoon.Laws.ReleaseCodec

/-!
# Deployment snapshots and their lines

A deployment is read back from its snapshot when its numbers fit, its release is its own, and its pinned
configuration is read back from its text.
-/

namespace Harpoon.Journal

open Deploy Wire

/-! ## Readers -/

/-- The reader takes exactly the fields `l`, and returns `a`. -/
def Reads {α : Type} (x : Reader α) (l : List String) (a : α) : Prop := ∀ rest, x.run (l ++ rest) = .ok (a, rest)

section

variable {α β : Type} {x : Reader α} {f : α → Reader β} {l m : List String} {a : α} {b : β} {what s : String}
  {e : Except String α} {n : Nat} {o : Option Nat} {flagged : Bool}

theorem Reads.bind (first : Reads x l a) (second : Reads (f a) m b) : Reads (x >>= f) (l ++ m) b := by
  intro rest
  rw [List.append_assoc, StateT.run_bind, first]
  exact second rest

/-- A reader that takes one field. -/
theorem Reads.cons (first : Reads x [s] a) (second : Reads (f a) m b) : Reads (x >>= f) (s :: m) b :=
  .bind first second

/-- A reader that takes none. -/
theorem Reads.skip (first : Reads x [] a) (second : Reads (f a) m b) : Reads (x >>= f) m b :=
  .bind first second

/-- The last field, then a result. -/
theorem Reads.last {g : α → β} (only : Reads x l a) : Reads (x >>= fun a => pure (g a)) l (g a) := by
  intro rest
  rw [StateT.run_bind, only]
  rfl

theorem Reads.pure : Reads (pure a) [] a := fun _ => rfl

theorem Reads.lift (ok : e = .ok a) : Reads (liftM e) [] a := by
  intro rest
  rw [ok]
  rfl

theorem Reads.next : Reads (next what) [s] s := fun _ => rfl

theorem Reads.num (fits : n ≤ maxNumber) : Reads (num what) [n.repr] n := by
  refine Reads.bind .next (.lift ?_)
  exact number_repr fits

theorem repr_ne_dash : n.repr ≠ "-" := by
  intro dash
  have free : Free '-' n.repr := repr_free (by decide)
  rw [dash] at free
  exact free (by decide)

theorem readOpt_optStr (fits : ∀ n, o = some n → n ≤ maxNumber) : readOpt what (optStr o) = .ok o := by
  cases o with
  | none => rfl
  | some n =>
    have other : optStr (some n) ≠ "-" := repr_ne_dash
    rw [readOpt, if_neg other, optStr, Option.map_some, Option.getD_some, number_repr (fits n rfl)]
    rfl

theorem Reads.opt (fits : ∀ n, o = some n → n ≤ maxNumber) : Reads (opt what) [optStr o] o :=
  .bind .next (.lift (readOpt_optStr fits))

theorem Reads.flag : Reads (flag what) [flagStr flagged] flagged := by
  refine Reads.bind .next (.lift ?_)
  cases flagged <;> rfl

theorem Reads.text : Reads (text what) [esc s] s := by
  refine Reads.bind .next (.lift ?_)
  rw [unesc_esc]
  rfl

theorem parseTrigger_triggerStr (t : Trigger) : parseTrigger (triggerStr t) = .ok t := by
  cases t <;> rfl

theorem parseStatus_statusStr (x : DeploymentStatus) : parseStatus (statusStr x) = .ok x := by
  cases x <;> rfl

theorem parseStep_stepStr (x : Step) : parseStep (stepStr x) = .ok x := by
  cases x <;> rfl

theorem parseStepStatus_stepStatusStr (x : StepStatus) : parseStepStatus (stepStatusStr x) = .ok x := by
  cases x <;> rfl

theorem parseFailureKind_failureKindStr (x : FailureKind) : parseFailureKind (failureKindStr x) = .ok x := by
  cases x <;> rfl

theorem parseReason_reasonStr (x : Reason) : parseReason (reasonStr x) = .ok x := by
  cases x <;> rfl

theorem parseRecoveryOutcome_outcomeFields (x : RecoveryOutcome) :
    parseRecoveryOutcome (outcomeFields x).1 (outcomeFields x).2 = .ok x := by
  cases x with
  | inProgress | restored | restoredUnverified => rfl
  | restoreFailed r | notAttempted r => cases r <;> rfl

end

/-! ## The parts of a snapshot -/

/-- An optional number fits. -/
def Fits (o : Option Nat) : Prop := ∀ n, o = some n → n ≤ maxNumber

def cutoverMs : CutoverState → Option Nat
  | .notStarted | .notRequired => none
  | .begun atMs | .confirmed atMs | .failed atMs => some atMs

/-- What a deployment must satisfy to be read back from its snapshot. -/
structure Recordable (d : Deployment) : Prop where
  created : d.createdMs ≤ maxNumber
  started : Fits d.startedMs
  finished : Fits d.finishedMs
  cutover : Fits (cutoverMs d.cutover)
  recovery : ∀ r, d.recovery = some r → r.startedMs ≤ maxNumber ∧ Fits r.finishedMs ∧ r.budgetMs ≤ maxNumber
  interruption : ∀ i, d.interruption = some i → i.startedMs ≤ maxNumber ∧ Fits i.endedMs
  steps : ∀ s, Fits (d.step s).startedMs ∧ Fits (d.step s).finishedMs
  release : ∀ r, d.release = some r → r = ReleaseId.fromDeployment d.id
  pinned : ∀ p, d.pinned = some p → p.Pinnable

section

variable {d : Deployment}

theorem reads_cutover {c : CutoverState} (fits : Fits (cutoverMs c)) : Reads readCutover (cutoverFields c) c := by
  have read : ∀ {kind : String}, cutoverOf kind (cutoverMs c) = .ok c →
      Reads readCutover [kind, optStr (cutoverMs c)] c := fun same =>
    .cons .next (.cons (.opt fits) (.lift same))
  cases c <;> exact read rfl

theorem reads_failure (o : Option Failure) : Reads readFailure (failureFields o) o := by
  have read : ∀ (has timedOut : Bool) {step kind message : String},
      failureOf has step kind message timedOut = .ok o →
      Reads readFailure [flagStr has, step, kind, message, flagStr timedOut] o := fun _ _ _ _ _ same =>
    .cons .flag (.cons .next (.cons .next (.cons .next
      (.cons .flag (.lift same)))))
  cases o with
  | none => exact read false false rfl
  | some x =>
    refine read true _ ?_
    rw [failureOf, if_pos rfl, parseStep_stepStr, parseFailureKind_failureKindStr, unesc_esc]
    rfl

theorem reads_recovery {o : Option Recovery}
    (fits : ∀ r, o = some r → r.startedMs ≤ maxNumber ∧ Fits r.finishedMs ∧ r.budgetMs ≤ maxNumber) :
    Reads readRecovery (recoveryFields o) o := by
  have read : ∀ (has : Bool) (finished : Option Nat) {outcome why started budget : String}, Fits finished →
      recoveryOf has outcome why started finished budget = .ok o →
      Reads readRecovery [flagStr has, outcome, why, started, optStr finished, budget] o := fun _ _ _ _ _ _ fits same =>
    .cons .flag (.cons .next (.cons .next (.cons .next
      (.cons (.opt fits) (.cons .next (.lift same))))))
  cases o with
  | none => exact read false none (fun _ other => by cases other) rfl
  | some r =>
    obtain ⟨started, finished, budget⟩ := fits r rfl
    refine read true _ finished ?_
    rw [recoveryOf, if_pos rfl, parseRecoveryOutcome_outcomeFields, number_repr started, number_repr budget]
    rfl

theorem reads_interruption {o : Option Interruption}
    (fits : ∀ i, o = some i → i.startedMs ≤ maxNumber ∧ Fits i.endedMs) :
    Reads readInterruption (interruptionFields o) o := by
  have read : ∀ (has : Bool) (ended : Option Nat) {started : String}, Fits ended →
      interruptionOf has started ended = .ok o →
      Reads readInterruption [flagStr has, started, optStr ended] o := fun _ _ _ fits same =>
    .cons .flag (.cons .next (.cons (.opt fits) (.lift same)))
  cases o with
  | none => exact read false none (fun _ other => by cases other) rfl
  | some i =>
    obtain ⟨started, ended⟩ := fits i rfl
    refine read true _ ended ?_
    rw [interruptionOf, if_pos rfl, number_repr started]
    rfl

theorem releaseOf_idStr (own : ∀ r, d.release = some r → r = ReleaseId.fromDeployment d.id) :
    releaseOf d.id (idStr d.release) = .ok d.release := by
  cases release : d.release with
  | none => rfl
  | some r =>
    rw [release] at own
    have other : idStr (some r) ≠ "-" := Id.asStr_ne_dash
    rw [releaseOf, if_neg other, idStr, Option.map_some, Option.getD_some, readId_asStr]
    exact if_neg fun foreign => foreign (own r rfl)

theorem reads_step {r : StepRecord} (fits : Fits r.startedMs ∧ Fits r.finishedMs) :
    Reads readStep (stepFields r) r :=
  .cons .next (.skip (.lift (parseStepStatus_stepStatusStr r.status))
    (.cons (.opt fits.1) (.cons (.opt fits.2) (.last .text))))

/-- The records of `ss` are set in the table one after the other. -/
theorem reads_steps {ss : List Step} {t : StepTable}
    (fits : ∀ s, Fits (d.step s).startedMs ∧ Fits (d.step s).finishedMs) :
    Reads (readSteps ss t) (ss.flatMap fun s => stepFields (d.step s))
      (ss.foldl (fun t s => t.set s (d.step s)) t) := by
  induction ss generalizing t with
  | nil => exact .pure
  | cons s ss ih =>
    rw [List.flatMap_cons]
    exact .bind (reads_step (fits s)) ih

theorem steps_order : Step.order.foldl (fun t s => t.set s (d.step s)) .fresh = d.steps := by
  ext s : 1
  cases s <;> rfl

/-- The fixed fields are those of the deployment without its trailing fields. -/
theorem reads_fixed (r : Recordable d) :
    Reads readFixed (fixedFields d) { d with pinned := none, replaces := none, rollbackTo := none } := by
  have steps : Reads (readSteps Step.order .fresh) _ d.steps := steps_order ▸ reads_steps r.steps
  exact .cons .next (.skip (.lift readId_asStr)
    (.cons .next (.skip (.lift readId_asStr)
    (.cons .next (.skip (.lift (parseTrigger_triggerStr d.trigger))
    (.cons .next (.skip (.lift (parseStatus_statusStr d.status))
    (.cons (.num r.created) (.cons (.opt r.started) (.bind (l := [_]) (.opt r.finished)
    (.bind (reads_cutover r.cutover) (.bind (reads_failure d.failure) (.bind (reads_recovery r.recovery)
    (.bind (reads_interruption r.interruption) (.cons .next
    (.skip (.lift (releaseOf_idStr r.release)) (.last steps)))))))))))))))))

theorem length_fixedFields : (fixedFields d).length = snapshotLen - 2 := by
  have cutover : (cutoverFields d.cutover).length = 2 := by cases d.cutover <;> rfl
  have failure : (failureFields d.failure).length = 5 := by cases d.failure <;> rfl
  have recovery : (recoveryFields d.recovery).length = 6 := by cases d.recovery <;> rfl
  have interruption : (interruptionFields d.interruption).length = 3 := by cases d.interruption <;> rfl
  have steps : (Step.order.flatMap fun s => stepFields (d.step s)).length = 24 := rfl
  simp only [fixedFields, List.length_append, cutover, failure, recovery, interruption, steps]
  rfl

theorem trailing_get (k : Nat) : (snapshotFields d)[snapshotLen + k]? = (trailingFields d)[k]? := by
  have place : snapshotLen + k = (fixedFields d).length + k + 1 + 1 := by
    rw [length_fixedFields]
    show 50 + k = 48 + k + 1 + 1
    omega
  rw [snapshotFields, place, List.getElem?_cons_succ, List.getElem?_cons_succ,
    List.getElem?_append_right (Nat.le_add_right _ _), Nat.add_sub_cancel_left]

theorem length_trailingFields : (trailingFields d).length ≤ 3 := by
  unfold trailingFields
  cases d.pinned <;> cases d.replaces <;> cases d.rollbackTo <;> simp

theorem checkLen_snapshotFields : checkLen (snapshotFields d) = .ok () := by
  have length : (snapshotFields d).length = snapshotLen + (trailingFields d).length := by
    rw [snapshotFields, List.length_cons, List.length_cons, List.length_append, length_fixedFields]
    show 48 + _ + 1 + 1 = 50 + _
    omega
  have most := length_trailingFields (d := d)
  rw [checkLen, if_neg (by omega)]

/-- The text of a configuration is not the text of none. -/
theorem encode_ne_dash {p : ReleaseConfig} (pinnable : p.Pinnable) : p.encode ≠ "-" := by
  intro dash
  have read := ReleaseConfig.decode_encode pinnable
  have bad : (ReleaseConfig.decode "-").isOk = false := by decide
  rw [dash] at read
  rw [read] at bad
  cases bad

theorem readPinned_snapshotFields (r : Recordable d) : readPinned (snapshotFields d) = .ok d.pinned := by
  have place := trailing_get (d := d) 0
  rw [Nat.add_zero] at place
  unfold readPinned
  rw [place]
  cases pinned : d.pinned with
  | none =>
    have none : (trailingFields d)[0]? = none ∨ (trailingFields d)[0]? = some "-" := by
      unfold trailingFields
      rw [pinned]
      cases d.replaces <;> cases d.rollbackTo <;> simp
    rcases none with none | none
    · rw [none]
    · rw [none]
      rfl
  | some p =>
    have pinnable := r.pinned p pinned
    have first : (trailingFields d)[0]? = some p.encode := by
      unfold trailingFields
      rw [pinned]
      simp
    rw [first]
    split
    next none => cases none
    next dash => exact absurd (Option.some.inj dash) (encode_ne_dash pinnable)
    next q _ same =>
      cases same
      rw [ReleaseConfig.decode_encode pinnable]
      rfl

theorem readReplaces_snapshotFields : readReplaces (snapshotFields d) = .ok d.replaces := by
  unfold readReplaces
  rw [trailing_get]
  cases replaces : d.replaces with
  | none =>
    have none : (trailingFields d)[1]? = none ∨ (trailingFields d)[1]? = some "-" := by
      unfold trailingFields
      rw [replaces]
      cases d.pinned <;> cases d.rollbackTo <;> simp [idStr]
    rcases none with none | none
    · rw [none]
    · rw [none]
      rfl
  | some r =>
    have second : (trailingFields d)[1]? = some r.asStr := by
      unfold trailingFields
      rw [replaces]
      simp [idStr]
    rw [second]
    split
    next none => cases none
    next dash => exact absurd (Option.some.inj dash) Id.asStr_ne_dash
    next q _ same =>
      cases same
      rw [readId_asStr]
      rfl

theorem readRollbackTo_snapshotFields : readRollbackTo (snapshotFields d) = .ok d.rollbackTo := by
  unfold readRollbackTo
  rw [trailing_get]
  cases rollbackTo : d.rollbackTo with
  | none =>
    have none : (trailingFields d)[2]? = none := by
      unfold trailingFields
      rw [rollbackTo]
      cases d.pinned <;> cases d.replaces <;> simp
    rw [none]
  | some r =>
    have third : (trailingFields d)[2]? = some r.asStr := by
      unfold trailingFields
      rw [rollbackTo]
      simp
    rw [third]
    dsimp only
    rw [readId_asStr]
    rfl

/-- A deployment is read back from the fields of its snapshot. -/
theorem decodeSnapshot_snapshotFields (r : Recordable d) : decodeSnapshot (snapshotFields d) = .ok d := by
  have version : checkVersion (snapshotFields d) = .ok () := by
    have one : (snapshotFields d)[1]?.bind (parseUnsigned 10 0xFFFFFFFF) = some 1 :=
      parseUnsigned_repr (n := 1) (by decide)
    rw [checkVersion, one]
    rfl
  have fixed : ((snapshotFields d).drop 2).take (snapshotLen - 2) = fixedFields d := by
    show (fixedFields d ++ trailingFields d).take (snapshotLen - 2) = _
    rw [← length_fixedFields (d := d), List.take_left]
  have read := reads_fixed r []
  rw [List.append_nil] at read
  rw [decodeSnapshot, version, checkLen_snapshotFields, readPinned_snapshotFields r,
    readReplaces_snapshotFields, readRollbackTo_snapshotFields, fixed]
  simp only [bind, Except.bind, read]
  rfl

/-! ## What the fields are -/

/-- The fields that stand for a choice. -/
def snapshotWords : List String :=
  ["snap", "-", "0", "1", "manual", "cli", "poll", "webhook", "rollback", "promote"] ++
    [DeploymentStatus.requested, .queued, .running, .succeeded, .failed, .cancelled, .interrupted, .superseded].map
      statusStr ++
    ["not_started", "not_required", "begun", "confirmed", "failed"] ++ Step.order.map stepStr ++
    [FailureKind.source, .build, .preliminaryCheck, .cutover, .finalCheck].map failureKindStr ++
    ["in_progress", "restored", "restored_unverified", "restore_failed", "not_attempted"] ++
    [Reason.noPreviousRelease, .configUnavailable, .portInUse, .interrupted, .imageMissing, .secretUnavailable,
      .dockerUnreachable, .timeout, .startFailed, .cancelled].map reasonStr ++
    [StepStatus.pending, .running, .succeeded, .failed, .skipped, .interrupted].map stepStatusStr

/-- The free texts of a deployment. -/
def snapshotTexts (d : Deployment) : List String :=
  (d.failure.map (·.message)).toList ++ Step.order.map fun s => (d.step s).note

section

variable {P : String → Prop}

/-- What holds of words, numbers, identifiers, escaped texts and configurations holds of every field. -/
theorem forall_snapshotFields (words : ∀ w ∈ snapshotWords, P w) (ids : ∀ {kind : IdKind} (i : Id kind), P i.asStr)
    (numbers : ∀ n : Nat, P n.repr) (texts : ∀ t ∈ snapshotTexts d, P (esc t))
    (pins : ∀ c : ReleaseConfig, P c.encode) : ∀ f ∈ snapshotFields d, P f := by
  have dash : P "-" := words _ (by decide)
  have zero : P "0" := words _ (by decide)
  have one : P "1" := words _ (by decide)
  have flag : ∀ b, P (flagStr b) := by
    intro b
    cases b
    · exact zero
    · exact one
  have optional : ∀ o : Option Nat, P (optStr o) := by
    intro o
    cases o with
    | none => exact dash
    | some n => exact numbers n
  have ident : ∀ {kind : IdKind} (o : Option (Id kind)), P (idStr o) := by
    intro kind o
    cases o with
    | none => exact dash
    | some i => exact ids i
  have trigger : P (triggerStr d.trigger) := words _ (by cases d.trigger <;> decide)
  have status : P (statusStr d.status) := words _ (by cases d.status <;> decide)
  have cutover : ∀ f ∈ cutoverFields d.cutover, P f := by
    cases d.cutover <;> simp only [cutoverFields, List.forall_mem_cons, List.not_mem_nil, false_implies,
      implies_true, and_true]
    case notStarted | notRequired => exact ⟨words _ (by decide), dash⟩
    all_goals exact ⟨words _ (by decide), numbers _⟩
  have failure : ∀ f ∈ failureFields d.failure, P f := by
    cases failed : d.failure with
    | none => simp [failureFields, dash, zero]
    | some x =>
      have step : P (stepStr x.step) := words _ (by cases x.step <;> decide)
      have kind : P (failureKindStr x.kind) := words _ (by cases x.kind <;> decide)
      have message : P (esc x.message) := texts _ (by simp [snapshotTexts, failed])
      simp only [failureFields, List.forall_mem_cons, List.not_mem_nil, false_implies, implies_true, and_true]
      exact ⟨one, step, kind, message, flag _⟩
  have recovery : ∀ f ∈ recoveryFields d.recovery, P f := by
    cases d.recovery with
    | none => simp [recoveryFields, dash, zero]
    | some r =>
      have outcome : P (outcomeFields r.outcome).1 ∧ P (outcomeFields r.outcome).2 := by
        cases r.outcome with
        | inProgress | restored | restoredUnverified => exact ⟨words _ (by decide), dash⟩
        | restoreFailed why | notAttempted why =>
          exact ⟨words _ (by cases why <;> decide), words _ (by cases why <;> decide)⟩
      simp only [recoveryFields, List.forall_mem_cons, List.not_mem_nil, false_implies, implies_true, and_true]
      exact ⟨one, outcome.1, outcome.2, numbers _, optional _, numbers _⟩
  have interruption : ∀ f ∈ interruptionFields d.interruption, P f := by
    cases d.interruption with
    | none => simp [interruptionFields, dash, zero]
    | some i =>
      simp only [interruptionFields, List.forall_mem_cons, List.not_mem_nil, false_implies, implies_true, and_true]
      exact ⟨one, numbers _, optional _⟩
  have steps : ∀ f ∈ Step.order.flatMap (fun s => stepFields (d.step s)), P f := by
    intro f mem
    obtain ⟨s, inside, mem⟩ := List.mem_flatMap.mp mem
    have status : P (stepStatusStr (d.step s).status) := words _ (by cases (d.step s).status <;> decide)
    have note : P (esc (d.step s).note) := texts _ (List.mem_append_right _ (List.mem_map.mpr ⟨s, inside, rfl⟩))
    have all : ∀ f ∈ stepFields (d.step s), P f := by
      simp only [stepFields, List.forall_mem_cons, List.not_mem_nil, false_implies, implies_true, and_true]
      exact ⟨status, optional _, optional _, note⟩
    exact all f mem
  have pinned : P ((d.pinned.map ReleaseConfig.encode).getD "-") := by
    cases d.pinned with
    | none => exact dash
    | some p => exact pins p
  have trailing : ∀ f ∈ trailingFields d, P f := by
    unfold trailingFields
    simp only [List.forall_mem_append]
    refine ⟨?_, ?_, ?_⟩
    · split
      · exact List.forall_mem_singleton.mpr pinned
      · exact fun _ mem => by cases mem
    · split
      · exact List.forall_mem_singleton.mpr (ident _)
      · exact fun _ mem => by cases mem
    · cases d.rollbackTo with
      | none => exact fun _ mem => by cases mem
      | some r => exact List.forall_mem_singleton.mpr (ids r)
  have header : ∀ f ∈ [d.id.asStr, d.applicationId.asStr, triggerStr d.trigger, statusStr d.status,
      d.createdMs.repr, optStr d.startedMs, optStr d.finishedMs], P f := by
    simp only [List.forall_mem_cons, List.not_mem_nil, false_implies, implies_true, and_true]
    exact ⟨ids _, ids _, trigger, status, numbers _, optional _, optional _⟩
  have kind : P "snap" := words _ (by decide)
  have fixed : ∀ f ∈ fixedFields d, P f := by
    simp only [fixedFields, List.forall_mem_append]
    exact ⟨header, cutover, failure, recovery, interruption, List.forall_mem_singleton.mpr (ident _), steps⟩
  exact List.forall_mem_cons.mpr ⟨kind, List.forall_mem_cons.mpr ⟨one, List.forall_mem_append.mpr ⟨fixed, trailing⟩⟩⟩

end

/-- Each text stands in a field of its own. -/
theorem esc_snapshotFields {t : String} (mem : t ∈ snapshotTexts d) : esc t ∈ snapshotFields d := by
  have fixed : esc t ∈ fixedFields d := by
    simp only [fixedFields, List.mem_append]
    rcases List.mem_append.mp mem with message | note
    · obtain ⟨x, failed, rfl⟩ := Option.map_eq_some_iff.mp (Option.mem_toList.mp message)
      refine .inr (.inr (.inl ?_))
      rw [failed]
      simp [failureFields]
    · obtain ⟨s, inside, rfl⟩ := List.mem_map.mp note
      refine .inr (.inr (.inr (.inr (.inr (.inr (List.mem_flatMap.mpr ⟨s, inside, ?_⟩))))))
      simp [stepFields]
  exact List.mem_cons_of_mem _ (List.mem_cons_of_mem _ (List.mem_append_left _ fixed))

/-- Every field of a snapshot is plain, whatever its texts. -/
theorem plain_snapshotFields : ∀ f ∈ snapshotFields d, Plain f :=
  forall_snapshotFields (by decide) (fun _ => .asStr) (fun _ => .repr) (fun _ _ => .esc)
    fun _ => ReleaseConfig.plain_encode

end

end Harpoon.Journal
