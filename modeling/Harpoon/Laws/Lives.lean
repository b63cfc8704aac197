import Harpoon.Laws.Startup

/-!
# A deployment across processes

A deployment is run by one process, and may be recovered by later ones, each of which can die anywhere.
What goes from one to the next is the snapshot on disk. The restoration of the previous release is
tried at most once in all of them together: before the call, the attempt is on disk, and no process
undoes a recorded attempt or makes another.
-/

namespace Harpoon.Deploy

open Interact Process

/-! ## An explicit recovery -/

section

variable {cfg : RunConfig} {previous : Option PreviousRelease} {prev : PreviousRelease}
  {d₀ : Deployment} {r : Run} {t : Trail}

/-- Only reading happens before an explicit recovery. -/
theorem recoveryBlockers_runs {budget : Nat} {post : List String → Run → Trail → Prop}
    (kept : Kept cfg previous d₀ r.d t.calls) (open_ : r.d.status = .succeeded → d₀.status = .succeeded)
    (h : ∀ found r' t', r'.d = r.d → Kept cfg previous d₀ r'.d t'.calls →
      (∀ c ∈ t'.calls, c ∈ t.calls ∨ c.call = .restoreBlockers prev) → post found r' t') :
    Runs cfg previous d₀ (Run.recoveryBlockers cfg prev budget) post r t := by
  unfold Run.recoveryBlockers
  split
  · exact h _ r t rfl kept fun c mem => .inl mem
  · have may : MayCall cfg previous d₀ (.restoreBlockers prev) budget r.d t :=
      ⟨kept, trivial, fun h => (nomatch h), fun h => (nomatch h), open_⟩
    refine meets_bind.mpr (call_runs callBackend_once may ?_)
    intro out r₁ t₁ record d₁ called _ _ _ kept₁
    have reads : ∀ c ∈ t₁.calls, c ∈ t.calls ∨ c.call = .restoreBlockers prev := by
      intro c mem
      rcases List.mem_cons.mp (called.calls ▸ mem) with rfl | mem
      · exact .inr called.call
      · exact .inl mem
    dsimp only
    split <;> exact h _ r₁ t₁ d₁ kept₁ reads

/-- The attempt is on disk; then the one restoration is made. -/
theorem restoreExplicitly_runs {budget : Nat} (budgeted : budget = cfg.policy.restoreBudgetMs)
    (can : d₀.canRecoverExplicitly = true) (same : r.d = d₀) (kept : Kept cfg previous d₀ r.d t.calls)
    (reads : ∀ c ∈ t.calls, c.call = .restoreBlockers prev) :
    Runs cfg previous d₀ (do
      let at_ ← now
      Run.change (·.beginExplicitRecovery budget at_)
      Run.save
      let outcome ← Run.restorePhase cfg (some prev) budget
      let at_ ← now
      Run.change (·.finishRecovery outcome at_)
      Run.change (·.finishStep .recovery outcome.serviceRestored outcome.asStr at_)
      Run.save
      return Run.report (← get) [] (some .failedCutover))
      (fun _ r t => Kept cfg previous d₀ r.d t.calls) r t := by
  subst budgeted
  have notFresh : ¬ d₀.Fresh := fun fresh => by
    rw [Deployment.canRecoverExplicitly, fresh.status] at can; cases can
  refine meets_bind.mpr (now_runs kept fun ms t₁ same₁ => meets_bind.mpr ?_)
  refine change_runs (kept.of_calls same₁.calls) (fun r₂ began => ?_) fun fresh => absurd fresh notFresh
  obtain ⟨none, id₂, status₂, begun, recovering, running⟩ := Deployment.beginExplicitRecovery_ok began
  have unspent : d₀.recovery = .none := same ▸ none
  have kept₂ : Kept cfg previous d₀ r₂.d t₁.calls :=
    ⟨(kept.of_calls same₁.calls).ended, id₂.trans kept.id, fun _ => begun, fun _ => recovering.isSome,
      fun _ => recovering.isSome,
      fun succeeded => (kept.of_calls same₁.calls).won (status₂.symm.trans succeeded)⟩
  refine meets_bind.mpr (save_runs kept₂ fun t₃ saved => meets_bind.mpr ?_)
  have calls₃ : t₃.calls = t.calls := saved.calls.trans same₁.calls
  have ready : Restoring cfg previous d₀ r₂.d t₃ := by
    refine ⟨kept₂.of_calls saved.calls, fun succeeded => ?_, recovering.isSome, unspent, ?_,
      saved.stored, ?_⟩
    · rw [← same]; exact status₂.symm.trans succeeded
    · rw [calls₃, made, List.any_eq_false]
      intro c mem
      rw [reads c mem]
      exact Bool.false_ne_true
    · rw [calls₃]
      intro later c earlier split isStart
      have mem : c ∈ t.calls := split ▸ List.mem_append_right later List.mem_cons_self
      rw [reads c mem] at isStart; cases isStart
  refine restorePhase_runs ready fun outcome r₄ t₄ d₄ kept₄ settled => ?_
  refine recordOutcome_runs kept₄ (d₄ ▸ recovering) (d₄ ▸ running) settled fun ms r₅ t₅ _ kept₅ => ?_
  exact meets_bind.mpr (save_runs kept₅ fun t₆ saved₆ => meets_bind.mpr (meets_get.mpr
    (kept₅.of_calls saved₆.calls)))

variable (cfg previous prev) in
/-- What an explicit recovery does, whatever it meets. -/
theorem recover_meets (r : Run) : Meets Trail.see (Rule cfg previous r.d) (Run.recover cfg prev)
    (fun _ r' t => Kept cfg previous r.d r'.d t.calls)
    (fun _ r' t => Kept cfg previous r.d r'.d t.calls) r Trail.start := by
  have kept : Kept cfg previous r.d r.d Trail.start.calls := kept_start r.d
  refine meets_bind.mpr (meets_get.mpr ?_)
  split
  · exact kept
  next can =>
    have can : r.d.canRecoverExplicitly = true := by simpa using can
    split
    · exact kept
    · suffices runs : Runs cfg previous r.d _ (fun _ r' t => Kept cfg previous r.d r'.d t.calls) r Trail.start
        from runs.mono (fun _ _ _ ended => ended) fun _ _ _ stops => stops.2
      refine meets_bind.mpr (recoveryBlockers_runs kept (fun h => h) fun found r₁ t₁ d₁ kept₁ reads => ?_)
      split
      · exact meets_bind.mpr (meets_get.mpr kept₁)
      · exact restoreExplicitly_runs rfl can d₁ kept₁ fun c mem =>
          (reads c mem).resolve_left fun none => (nomatch none)

/-! ## One process -/

/-- How often a restoration was tried. -/
def tries (calls : List Call) : Nat := calls.countP Call.isRestorePrevious

variable (d₀) in
/-- The attempts of one process, and what is on disk of them. -/
structure Attempted (t : Trail) : Prop where
  once : tries (t.calls.map CallRecord.call) ≤ 1
  first : 0 < tries (t.calls.map CallRecord.call) → d₀.recovery = none ∧ t.stored.isSome = true
  stored : ∀ d, t.stored = some d → d.id = d₀.id ∧
    (0 < tries (t.calls.map CallRecord.call) ∨ d₀.recovery.isSome = true → d.recovery.isSome = true)

theorem made_iff_tries {calls : List CallRecord} :
    made Call.isRestorePrevious calls = true ↔ 0 < tries (calls.map CallRecord.call) := by
  rw [Trail.made_eq, tries, List.countP_pos_iff, List.any_eq_true]

/-- Step lemma. -/
theorem Attempted.step {e : Event EngineSig} (attempted : Attempted d₀ t)
    (allowed : Rule cfg previous d₀ t e.op) : Attempted d₀ (t.see e) := by
  -- An event that neither begins a call nor stores a snapshot changes none of this.
  have quiet : call? e = none → storedSnapshot? e = none → Attempted d₀ (t.see e) := by
    intro noCall noSnapshot
    have calls : (t.see e).calls.map CallRecord.call = t.calls.map CallRecord.call := by
      rw [Trail.see_calls, noCall]; rfl
    have stored : (t.see e).stored = t.stored := by rw [Trail.see_stored, noSnapshot]; rfl
    exact ⟨calls ▸ attempted.once, calls ▸ stored ▸ attempted.first, calls ▸ stored ▸ attempted.stored⟩
  obtain ⟨op, answer⟩ := e
  cases op with
  | persist d =>
    have kept : Kept cfg previous d₀ d t.calls := allowed
    have saved : Attempted d₀ { t with stored := some d } := by
      refine ⟨attempted.once, fun tried => ⟨(attempted.first tried).1, rfl⟩, ?_⟩
      rintro _ ⟨⟩
      refine ⟨kept.id, ?_⟩
      rintro (tried | spent)
      · exact kept.restored (made_iff_tries.mpr tried)
      · exact kept.spent spent
    cases answer with
    | acknowledged => exact ⟨saved.once, saved.first, saved.stored⟩
    | failed _ stored =>
      cases stored with
      | true => exact ⟨saved.once, saved.first, saved.stored⟩
      | false => exact ⟨attempted.once, attempted.first, attempted.stored⟩
  | call c budgetMs =>
    cases restores : c.isRestorePrevious with
    | true =>
      cases c with
      | restorePrevious prev ms =>
        obtain ⟨new, unspent, ⟨d, stored, spent⟩, _⟩ := allowed
        have none_tried : tries (t.calls.map CallRecord.call) = 0 :=
          Nat.eq_zero_of_not_pos fun tried => by
            rw [made_iff_tries.mpr tried] at new; cases new
        have one : tries ((t.see ⟨.call (.restorePrevious prev ms) budgetMs, answer⟩).calls.map
            CallRecord.call) = 1 := by
          rw [Trail.see_calls]
          exact (List.countP_cons_of_pos rfl).trans (congrArg (· + 1) none_tried)
        refine ⟨Nat.le_of_eq one, fun _ => ⟨unspent, congrArg Option.isSome stored⟩, ?_⟩
        intro d' stored'
        obtain rfl : d = d' := Option.some.inj (stored.symm.trans stored')
        exact ⟨(attempted.stored d stored).1, fun _ => spent⟩
      | _ => cases restores
    | false =>
      have same : tries ((t.see ⟨.call c budgetMs, answer⟩).calls.map CallRecord.call) =
          tries (t.calls.map CallRecord.call) := by
        rw [Trail.see_calls]
        exact List.countP_cons_of_neg (by rw [restores]; exact Bool.false_ne_true)
      exact ⟨same ▸ attempted.once, same ▸ attempted.first, same ▸ attempted.stored⟩
  | _ => exact quiet rfl rfl

theorem attempted_of_lawful {h : History EngineSig}
    (lawful : Lawful Trail.see (Rule cfg previous d₀) Trail.start h) : Attempted d₀ (Trail.of h) :=
  Lawful.invariant (fun _ _ => Attempted.step)
    ⟨Nat.zero_le 1, fun h => (nomatch h), fun _ h => (nomatch h)⟩ lawful

end

/-! ## Many processes -/

/-- A deployment between two processes. -/
structure Life where
  /-- The last snapshot that was stored. -/
  disk : Deployment
  /-- What the current process has of it. -/
  memory : Deployment
  /-- How often a restoration was tried so far. -/
  restores : Nat

/-- What a process leaves that went through `h` and has `q` left: if that is not its end, it died. -/
def Life.after (s : Life) (h : History EngineSig)
    (q : Program EngineSig (Except EngineError Report × Run)) : Life where
  disk := (storedSnapshots h).getLast?.getD s.disk
  memory := match q with
    | .done (_, r) => r.d
    | .ask _ _ => (storedSnapshots h).getLast?.getD s.disk
  restores := s.restores + tries (callsOf h)

/-- What a deployment can go through, in any order and as often as may be. -/
inductive Lives (d : Deployment) : Life → Prop where
  | start : Lives d ⟨d, d, 0⟩
  | crash {s : Life} (lives : Lives d s) : Lives d { s with memory := s.disk }
  /-- The deployments on disk are recovered at a start, and stored again or not. -/
  | startup {s : Life} {earlier later : List Deployment} {nowMs : Nat} {left : Deployment}
      (lives : Lives d s)
      (recovered : (recoverOnStart (earlier ++ s.disk :: later) nowMs).1[earlier.length]? = some left)
      (stored : Bool) : Lives d ⟨if stored then left else s.disk, left, s.restores⟩
  | run {s : Life} {ctx : Context} {cfg : RunConfig} {h : History EngineSig}
      {q : Program EngineSig (Except EngineError Report × Run)} (lives : Lives d s)
      (follows : Program.Follows (runDeploymentConfirmed s.memory ctx cfg) h q) : Lives d (s.after h q)
  | recover {s : Life} {prev : PreviousRelease} {cfg : RunConfig} {h : History EngineSig}
      {q : Program EngineSig (Except EngineError Report × Run)} (lives : Lives d s)
      (follows : Program.Follows (recoverCutover s.memory prev cfg) h q) : Lives d (s.after h q)

/-- The invariant of the lives of `d`. -/
structure Spent (d : Deployment) (s : Life) : Prop where
  once : s.restores ≤ 1
  disk : s.disk.id = d.id ∧ (0 < s.restores → s.disk.recovery.isSome = true)
  memory : s.memory.id = d.id ∧ (0 < s.restores → s.memory.recovery.isSome = true)

section

variable {cfg : RunConfig} {previous : Option PreviousRelease} {d : Deployment} {s : Life}
  {h : History EngineSig} {q : Program EngineSig (Except EngineError Report × Run)}

theorem tries_of : tries ((Trail.of h).calls.map CallRecord.call) = tries (callsOf h) := by
  rw [Trail.of_calls, tries, tries, List.countP_reverse]

/-- A process that keeps the protocol and what it says of its deployment keeps the invariant. -/
theorem Spent.after (spent : Spent d s)
    (lawful : Lawful Trail.see (Rule cfg previous s.memory) Trail.start h)
    (ended : ∀ out r, q = .done (out, r) → Kept cfg previous s.memory r.d (Trail.of h).calls) :
    Spent d (s.after h q) := by
  obtain ⟨once, first, stored⟩ := attempted_of_lawful lawful
  rw [tries_of] at once first
  have unspent : 0 < tries (callsOf h) → s.restores = 0 := fun tried =>
    Nat.eq_zero_of_not_pos fun before => by
      have recovery := spent.memory.2 before
      rw [(first tried).1] at recovery
      cases recovery
  have disk : (s.after h q).disk.id = d.id ∧
      (0 < (s.after h q).restores → (s.after h q).disk.recovery.isSome = true) := by
    have last : (Trail.of h).stored = (storedSnapshots h).getLast? := Trail.of_stored
    show ((storedSnapshots h).getLast?.getD s.disk).id = _ ∧
      (0 < s.restores + tries (callsOf h) → ((storedSnapshots h).getLast?.getD s.disk).recovery.isSome = true)
    rw [← last]
    cases found : (Trail.of h).stored with
    | none =>
      refine ⟨spent.disk.1, fun positive => spent.disk.2 ?_⟩
      by_cases tried : 0 < tries (callsOf h)
      · have onDisk := (first tried).2
        rw [found] at onDisk; cases onDisk
      · omega
    | some D =>
      obtain ⟨id, recovery⟩ := stored D found
      refine ⟨id.trans spent.memory.1, fun positive => recovery ?_⟩
      rw [tries_of]
      by_cases tried : 0 < tries (callsOf h)
      · exact .inl tried
      · exact .inr (spent.memory.2 (by omega))
  refine ⟨?_, disk, ?_⟩
  · show s.restores + tries (callsOf h) ≤ 1
    have before := spent.once
    by_cases tried : 0 < tries (callsOf h)
    · have none_before := unspent tried
      omega
    · omega
  · cases q with
    | ask op next => exact disk
    | done value =>
      obtain ⟨out, r⟩ := value
      have kept := ended out r rfl
      refine ⟨kept.id.trans spent.memory.1, fun (positive : 0 < s.restores + tries (callsOf h)) => ?_⟩
      show r.d.recovery.isSome = true
      by_cases tried : 0 < tries (callsOf h)
      · exact kept.restored (made_iff_tries.mpr (tries_of.symm ▸ tried))
      · exact kept.spent (spent.memory.2 (by omega))

theorem recover_lawful {prev : PreviousRelease}
    (follows : Program.Follows (recoverCutover d prev cfg) h q) :
    Lawful Trail.see (Rule cfg none d) Trail.start h :=
  (Program.Obeys.follows (recover_meets cfg none _ (Run.start cfg d)) follows).2

theorem recover_kept {prev : PreviousRelease} {out : Except EngineError Report} {r : Run}
    (follows : Program.Follows (recoverCutover d prev cfg) h (.done (out, r))) :
    Kept cfg none d r.d (Trail.of h).calls := by
  have ended := Program.Obeys.ended (recover_meets cfg none _ (Run.start cfg d)) follows
  cases out <;> exact ended

/-- Run lemma: the invariant holds throughout. -/
theorem Lives.spent (lives : Lives d s) : Spent d s := by
  induction lives with
  | start => exact ⟨Nat.zero_le 1, ⟨rfl, fun h => (nomatch h)⟩, rfl, fun h => (nomatch h)⟩
  | crash _ ih => exact ⟨ih.once, ih.disk, ih.disk⟩
  | @startup s earlier later nowMs left _ recovered stored ih =>
    have survives : Survives s.disk left := by
      rw [recoverOnStart_fst, List.getElem?_map, List.getElem?_append_right (Nat.le_refl _),
        Nat.sub_self] at recovered
      obtain rfl : (recoverDeployment s.disk nowMs).1 = left := Option.some.inj recovered
      exact survives_recoverDeployment
    have kept : left.id = d.id ∧ (0 < s.restores → left.recovery.isSome = true) :=
      ⟨survives.id.trans ih.disk.1, fun positive => survives.recovery.trans (ih.disk.2 positive)⟩
    refine ⟨ih.once, ?_, kept⟩
    cases stored with
    | true => exact kept
    | false => exact ih.disk
  | run _ follows ih =>
    refine ih.after (run_lawful follows) fun out r finished => ?_
    subst finished
    exact run_kept follows
  | recover _ follows ih =>
    refine ih.after (recover_lawful follows) fun out r finished => ?_
    subst finished
    exact recover_kept follows

/-- A process that has the deployment of `s` in memory, and runs or recovers it, comes as far as `h`. -/
inductive Drives : Life → History EngineSig → Prop where
  | run {s : Life} {ctx : Context} {cfg : RunConfig} {h : History EngineSig}
      {q : Program EngineSig (Except EngineError Report × Run)}
      (follows : Program.Follows (runDeploymentConfirmed s.memory ctx cfg) h q) : Drives s h
  | recover {s : Life} {prev : PreviousRelease} {cfg : RunConfig} {h : History EngineSig}
      {q : Program EngineSig (Except EngineError Report × Run)}
      (follows : Program.Follows (recoverCutover s.memory prev cfg) h q) : Drives s h

theorem Drives.lawful (drives : Drives s h) :
    ∃ cfg previous, Lawful Trail.see (Rule cfg previous s.memory) Trail.start h := by
  cases drives with
  | run follows => exact ⟨_, _, run_lawful follows⟩
  | recover follows => exact ⟨_, _, recover_lawful follows⟩

/-- Whatever a deployment goes through, the previous release is restored at most once: a process that
calls for it finds none tried before, by itself or another, and has the attempt on disk. -/
theorem restored_at_most_once (lives : Lives d s) :
    s.restores ≤ 1 ∧
    ∀ h before prev budgetMs, Drives s h → CallsAfter h before (.restorePrevious prev budgetMs) →
      s.restores + tries (callsOf before) = 0 ∧
      ∃ last, (storedSnapshots before).getLast? = some last ∧ last.id = d.id ∧
        last.recovery.isSome = true := by
  have spent := lives.spent
  refine ⟨spent.once, fun h before prev budgetMs drives calls => ?_⟩
  obtain ⟨cfg, previous, lawful⟩ := drives.lawful
  obtain ⟨_, _, _, rfl⟩ := calls
  obtain ⟨new, unspent, ⟨last, stored, recovery⟩, _⟩ := lawful.at
  have attempted := attempted_of_lawful lawful.left
  have untried : tries (callsOf before) = 0 := Nat.eq_zero_of_not_pos fun tried => by
    rw [show made _ _ = true from made_iff_tries.mpr (tries_of.symm ▸ tried)] at new
    cases new
  have none_before : s.restores = 0 := Nat.eq_zero_of_not_pos fun positive => by
    have recorded := spent.memory.2 positive
    rw [unspent] at recorded
    cases recorded
  refine ⟨by omega, last, Trail.of_stored.symm.trans stored, ?_, recovery⟩
  exact (attempted.stored last stored).1.trans spent.memory.1

end

/-- After a run that restored the previous release, no process calls for it again. -/
theorem restored_at_most_once_replaced :
    ∃ s, Lives Replaced.queued s ∧ s.restores = 1 ∧
      ∀ h before prev budgetMs, Drives s h → ¬ CallsAfter h before (.restorePrevious prev budgetMs) := by
  have run := Replaced.played_follows .acknowledged fun c => c = .startNew
  have restored : tries (callsOf (Replaced.played .acknowledged fun c => c = .startNew).1) = 1 := by
    decide +kernel
  generalize Replaced.played .acknowledged (fun c => c = .startNew) = played at run restored
  have lives : Lives Replaced.queued (Life.after ⟨Replaced.queued, Replaced.queued, 0⟩ played.1
      (.done (played.2.1, played.2.2))) := .run .start run
  have once : (Life.after ⟨Replaced.queued, Replaced.queued, 0⟩ played.1
      (.done (played.2.1, played.2.2))).restores = 1 := (Nat.zero_add _).trans restored
  refine ⟨_, lives, once, fun h before prev budgetMs drives calls => ?_⟩
  have untried := ((restored_at_most_once lives).2 h before prev budgetMs drives calls).1
  omega

end Harpoon.Deploy
