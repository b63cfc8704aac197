import Harpoon.Laws.Queue

/-!
# What the operations write

An operation may be cut short at any write, and a write that was reported as failed may be stored all
the same. `onDisk` is what a later reader makes of the writes that are stored; the next call of an
operation starts from there. Every record an operation hands to the journal is one that the reader will
accept, and an operation that ends normally leaves in memory what the journal holds.
-/

namespace Harpoon.Control

open Deploy Interact Process

/-! ## What the journal holds -/

abbrev Writes := History ControlSig

/-- Apply a record that the journal holds. A record that does not apply changes nothing. -/
def applied (s : ControlState) (r : ControlRecord) : ControlState :=
  match s.apply r with
  | .ok s' => s'
  | .error _ => s

/-- One write, as a later reader of the journal sees it. -/
def store (s : ControlState) (e : Interact.Event ControlSig) : ControlState :=
  if e.answer.isStored then applied s e.op else s

/-- What a later reader of the journal makes of the writes `h`, started from `s`. -/
def onDisk (s : ControlState) (h : Writes) : ControlState := h.seen store s

/-- Every record handed to the journal is one that the journal's reader will accept. -/
def Accepted (s : ControlState) (h : Writes) (r : ControlRecord) : Prop :=
  ∃ s', (onDisk s h).apply r = .ok s'

section

variable {s₀ s s' : ControlState} {h k : Writes} {r : ControlRecord} {e : JournalError} {stored : Bool}

@[simp] theorem onDisk_nil : onDisk s [] = s := rfl

theorem onDisk_append : onDisk s (h ++ k) = onDisk (onDisk s h) k := List.foldl_append

theorem onDisk_acknowledged (ok : s.apply r = .ok s') : onDisk s [⟨r, .acknowledged⟩] = s' := by
  show applied s r = s'
  rw [applied, ok]

/-- Whatever became of a write, the reader is left where it was or applies the record. -/
theorem store_cases (s : ControlState) (e : Interact.Event ControlSig) :
    store s e = s ∨ s.apply e.op = .ok (store s e) := by
  unfold store applied
  split
  · cases result : s.apply e.op with
    | error _ => exact .inl rfl
    | ok s' => exact .inr rfl
  · exact .inl rfl

/-- A property that each of these records keeps where it is accepted, the history of their writes keeps. -/
theorem onDisk_invariant {I : ControlState → Prop}
    (step : ∀ e ∈ h, ∀ s s', I s → s.apply e.op = .ok s' → I s') (start : I s) : I (onDisk s h) := by
  induction h generalizing s with
  | nil => exact start
  | cons e h ih =>
    refine ih (fun e' mem => step e' (List.mem_cons_of_mem _ mem)) ?_
    rcases store_cases s e with same | ok
    · exact same.symm ▸ start
    · exact step e List.mem_cons_self s _ start ok

/-- Run lemma: writes only move events forward. -/
theorem onDisk_moved : s.Moved (onDisk s h) :=
  onDisk_invariant (I := fun t => s.Moved t) (fun _ _ _ _ moved ok => moved.trans (ControlState.apply_moved ok))
    .refl

end

/-! ## The operations -/

/-- What an operation does, whatever becomes of its writes: the records it hands over are accepted, and
it ends as described. -/
abbrev Runs {α : Type} (s₀ : ControlState) (x : Writing α) (post : α → ControlState → Writes → Prop)
    (fail : ControlError → ControlState → Writes → Prop) (s : ControlState) (h : Writes) : Prop :=
  Meets remember (Accepted s₀) x post fail s h

section Rules

variable {α : Type} {s₀ s s' : ControlState} {h : Writes} {r : ControlRecord}
  {fail : ControlError → ControlState → Writes → Prop}

section

variable {σ : Type} {see : σ → Interact.Event ControlSig → σ} {rule : σ → ControlRecord → Prop} {t : σ}
  {post : Unit → ControlState → σ → Prop} {fail : ControlError → ControlState → σ → Prop}

theorem control_meets (allowed : rule t r) (ok : post () s (see t ⟨r, .acknowledged⟩))
    (failed : ∀ e stored, fail (.journal e) s (see t ⟨r, .failed e stored⟩)) :
    Meets see rule (control r) post fail s t := by
  refine meets_bind.mpr (meets_perform.mpr ⟨allowed, fun answer => ?_⟩)
  cases answer with
  | acknowledged => exact ok
  | failed e stored => exact failed e stored

/-- Writing a record that the state accepts. -/
theorem write_meets (allowed : rule t r) (applies : s.apply r = .ok s') (ok : post () s' (see t ⟨r, .acknowledged⟩))
    (failed : ∀ e stored, fail (.journal e) s (see t ⟨r, .failed e stored⟩)) :
    Meets see rule (write r) post fail s t := by
  refine meets_bind.mpr (control_meets allowed ?_ failed)
  refine meets_bind.mpr (meets_get.mpr ?_)
  rw [applies]
  exact ok

end

theorem control_runs {post : Unit → ControlState → Writes → Prop} (accepted : Accepted s₀ h r)
    (ok : post () s (h ++ [⟨r, .acknowledged⟩]))
    (failed : ∀ e stored, fail (.journal e) s (h ++ [⟨r, .failed e stored⟩])) :
    Runs s₀ (control r) post fail s h :=
  control_meets accepted ok failed

/-- Writing a record that the state accepts, when the journal holds what is in memory. -/
theorem write_runs {post : Unit → ControlState → Writes → Prop} (disk : onDisk s₀ h = s)
    (applies : s.apply r = .ok s') (ok : post () s' (h ++ [⟨r, .acknowledged⟩]))
    (failed : ∀ e stored, fail (.journal e) s (h ++ [⟨r, .failed e stored⟩])) :
    Runs s₀ (write r) post fail s h :=
  write_meets ⟨s', disk.symm ▸ applies⟩ applies ok failed

theorem refuse_runs {wrap : String → ControlError} {result : Except String α}
    {post : α → ControlState → Writes → Prop} (ok : ∀ a, result = .ok a → post a s h)
    (error : ∀ why, result = .error why → fail (wrap why) s h) :
    Runs s₀ (refuse wrap result) post fail s h :=
  meets_ofExcept ok error

end Rules

/-! ### Pauses -/

/-- The state with the pause of a candidate recorded, unless it is to be skipped. -/
def notePause (only : Option ApplicationId) (s : ControlState) (c : PauseCandidate) : ControlState :=
  if skipsPause s only c then s
  else { s with pauses := s.pauses ++ [⟨c.app, c.origin, c.kind, c.atMs, c.context⟩] }

/-- The state with the pauses of the candidates recorded. -/
def notePauses (only : Option ApplicationId) (s : ControlState) (cs : List PauseCandidate) : ControlState :=
  cs.foldl (notePause only) s

/-- Only pauses were written since `h`, and all of them acknowledged. -/
def PausesSince (h h' : Writes) : Prop :=
  ∃ k : Writes, h' = h ++ k ∧ ∀ e ∈ k, e.answer = .acknowledged ∧ ∃ p, e.op = .pause p

section Pauses

variable {s₀ s : ControlState} {h h' : Writes} {only : Option ApplicationId} {c : PauseCandidate}
  {cs : List PauseCandidate} {e : Interact.Event ControlSig}

theorem PausesSince.refl : PausesSince h h := ⟨[], (List.append_nil h).symm, fun _ mem => by cases mem⟩

theorem PausesSince.cons {p : PauseRec} (rest : PausesSince (h ++ [⟨.pause p, .acknowledged⟩]) h') :
    PausesSince h h' := by
  obtain ⟨k, rfl, all⟩ := rest
  refine ⟨⟨.pause p, .acknowledged⟩ :: k, by simp, ?_⟩
  rintro e (_ | ⟨_, mem⟩)
  · exact ⟨rfl, p, rfl⟩
  · exact all e mem

theorem apply_pauseRecord (unskipped : skipsPause s only c = false) :
    s.apply (pauseRecord c) = .ok (notePause only s c) := by
  refine ControlState.applyPause_ok.mpr ⟨?_, ?_⟩
  · simp only [skipsPause, Bool.or_eq_false_iff] at unskipped
    exact Option.isSome_eq_false_iff.mp unskipped.1 |> Option.isNone_iff_eq_none.mp
  · rw [notePause, unskipped]; rfl

/-- What is left of a sequence of pauses when a write fails: the earlier ones are recorded. -/
structure PauseLost (s₀ : ControlState) (h : Writes) (e : ControlError) (s' : ControlState) (h' : Writes) : Prop where
  failed : ∃ before p err stored, e = .journal err ∧ PausesSince h before ∧ onDisk s₀ before = s' ∧
    h' = before ++ [⟨.pause p, .failed err stored⟩]

theorem recordPauses_runs {post : Nat → ControlState → Writes → Prop}
    {fail : ControlError → ControlState → Writes → Prop} (disk : onDisk s₀ h = s)
    (ok : ∀ n h', onDisk s₀ h' = notePauses only s cs → PausesSince h h' →
      post n (notePauses only s cs) h')
    (failed : ∀ e s' h', PauseLost s₀ h e s' h' → fail e s' h') :
    Runs s₀ (recordPauses only cs) post fail s h := by
  induction cs generalizing s h post with
  | nil => exact ok 0 h disk .refl
  | cons c cs ih =>
    refine meets_bind.mpr (meets_get.mpr ?_)
    cases skip : skipsPause s only c with
    | true =>
      have same : notePauses only s (c :: cs) = notePauses only s cs := by
        rw [notePauses, List.foldl_cons, notePause, if_pos skip]; rfl
      rw [if_pos rfl]
      exact ih disk (fun n h' disk' pauses => same ▸ ok n h' (same ▸ disk') pauses) failed
    | false =>
      rw [if_neg Bool.false_ne_true]
      have applies := apply_pauseRecord skip
      refine meets_bind.mpr (write_runs disk applies ?_ ?_)
      · have disk₁ : onDisk s₀ (h ++ [⟨pauseRecord c, .acknowledged⟩]) = notePause only s c := by
          rw [onDisk_append, disk]
          exact onDisk_acknowledged applies
        refine meets_bind.mpr (ih disk₁ (fun n h' disk' pauses => ?_) fun e s' h' lost => ?_)
        · exact ok (n + 1) h' disk' pauses.cons
        · obtain ⟨before, p, err, stored, isErr, pauses, left, split⟩ := lost.failed
          exact failed e s' h' ⟨before, p, err, stored, isErr, pauses.cons, left, split⟩
      · intro err stored
        exact failed _ s _ ⟨h, _, err, stored, rfl, .refl, disk, rfl⟩

@[simp] theorem notePause_events : (notePause only s c).events = s.events := by
  unfold notePause; split <;> rfl

@[simp] theorem notePauses_events : (notePauses only s cs).events = s.events := by
  unfold notePauses
  induction cs generalizing s with
  | nil => rfl
  | cons c cs ih => rw [List.foldl_cons, ih, notePause_events]

end Pauses

/-! ### Each operation -/

section Operations

variable {s₀ s : ControlState} {h : Writes} {ev : Incoming} {deployments : List Deployment}
  {app : ApplicationId} {choice : Choice} {nowMs : Nat} {x : ExecRec}
  {fail : ControlError → ControlState → Writes → Prop}

/-- The state with a new event, held. -/
def withEvent (s : ControlState) (r : EventRec) (free : s.event r.app r.delivery = none) : ControlState :=
  { s with events := s.events.push (.hold r) free }

theorem apply_event {r : EventRec} (free : s.event r.app r.delivery = none) :
    s.apply (.event r) = .ok (withEvent s r free) :=
  ControlState.applyEvent_ok.mpr ⟨free, rfl⟩

theorem queueEvent_runs {post : Ingress → ControlState → Writes → Prop} (disk : onDisk s₀ h = s)
    (invalid : ∀ why, ev.check = .error why → fail (.invalid why) s h)
    (conflict : ∀ old, s.event ev.app ev.deliveryId = some old →
      ¬ (old.record.source = ev.source ∧ old.record.revision = ev.revision) →
      fail (.conflict (differentSource ev)) s h)
    (duplicate : ∀ old, s.event ev.app ev.deliveryId = some old → old.record.source = ev.source →
      old.record.revision = ev.revision → post .duplicate s h)
    (held : ∀ free : s.event ev.app ev.deliveryId = none, ev.check = .ok () →
      post .held (withEvent s ev.record free) (h ++ [⟨.event ev.record, .acknowledged⟩]))
    (lost : ∀ e stored, ev.check = .ok () →
      fail (.journal e) s (h ++ [⟨.event ev.record, .failed e stored⟩])) :
    Runs s₀ (queueEvent ev) post fail s h := by
  refine meets_bind.mpr (refuse_runs (fun _ checked => ?_) invalid)
  refine meets_bind.mpr (meets_get.mpr ?_)
  cases found : s.event ev.app ev.deliveryId with
  | some old =>
    dsimp only
    split
    next same => exact duplicate old found same.1 same.2
    next other => exact conflict old found other
  | none =>
    refine meets_bind.mpr (write_runs disk (apply_event (r := ev.record) found) ?_ fun e stored => ?_)
    · exact held found checked
    · exact lost e stored checked

theorem ingest_runs {post : Ingress → ControlState → Writes → Prop} (disk : onDisk s₀ h = s)
    (invalid : ∀ why, ev.check = .error why → fail (.invalid why) s h)
    (conflict : fail (.conflict (differentContent ev)) s h)
    (duplicate : post .duplicate s h) (notPaused : post .notPaused s h)
    (held : ∀ h' s' free, ev.check = .ok () → PausesSince h h' →
      s' = notePauses (some ev.app) s (pauseCandidates deployments) → onDisk s₀ h' = s' →
      post .held (withEvent s' ev.record free) (h' ++ [⟨.event ev.record, .acknowledged⟩]))
    (pauseLost : ∀ e s' h', PauseLost s₀ h e s' h' → fail e s' h')
    (lost : ∀ e stored h' s', ev.check = .ok () → PausesSince h h' → onDisk s₀ h' = s' →
      fail (.journal e) s' (h' ++ [⟨.event ev.record, .failed e stored⟩])) :
    Runs s₀ (ingest deployments ev) post fail s h := by
  refine meets_bind.mpr (refuse_runs (fun _ checked => ?_) invalid)
  refine meets_bind.mpr (meets_get.mpr ?_)
  cases found : s.event ev.app ev.deliveryId with
  | some old =>
    dsimp only
    split
    · exact duplicate
    · exact conflict
  | none =>
    dsimp only
    split
    · refine meets_bind.mpr (recordPauses_runs disk (fun n h' disk' pauses => ?_) pauseLost)
      have free : (notePauses (some ev.app) s (pauseCandidates deployments)).event ev.record.app
          ev.record.delivery = none := by
        rw [ControlState.event, notePauses_events]
        exact found
      refine meets_bind.mpr (write_runs disk' (apply_event free) ?_ fun e stored => ?_)
      · exact held h' _ free checked pauses rfl disk'
      · exact lost e stored h' _ checked pauses disk'
    · exact notPaused

theorem recordExec_runs {post : Unit → ControlState → Writes → Prop} (disk : onDisk s₀ h = s)
    (conflict : ∀ why, s.apply (.exec x) = .error why → fail (.conflict why) s h)
    (recorded : ∀ s', s.apply (.exec x) = .ok s' → post () s' (h ++ [⟨.exec x, .acknowledged⟩]))
    (lost : ∀ e stored s', s.apply (.exec x) = .ok s' →
      fail (.journal e) s (h ++ [⟨.exec x, .failed e stored⟩])) :
    Runs s₀ (recordExec x) post fail s h := by
  refine meets_bind.mpr (meets_get.mpr (meets_bind.mpr (refuse_runs (fun s' applies => ?_) conflict)))
  refine meets_bind.mpr (control_runs ⟨s', disk.symm ▸ applies⟩ ?_ fun e stored => lost e stored s' applies)
  exact recorded s' applies

theorem resumeDismiss_runs {post : Resumed → ControlState → Writes → Prop} (disk : onDisk s₀ h = s)
    (nothing : post .nothingToDo s h)
    (dismissed : ∀ h' s' events pauses, PausesSince h h' →
      s' = notePauses (some app) s (pauseCandidates deployments) → onDisk s₀ h' = s' →
      s'.ResumeAllowed (dismissal deployments s app nowMs) →
      post (.dismissed events pauses) (s'.settleResume (dismissal deployments s app nowMs))
        (h' ++ [⟨.resume (dismissal deployments s app nowMs), .acknowledged⟩]))
    (pauseLost : ∀ e s' h', PauseLost s₀ h e s' h' → fail e s' h')
    (lost : ∀ e stored h' s', PausesSince h h' → onDisk s₀ h' = s' →
      s' = notePauses (some app) s (pauseCandidates deployments) →
      s'.ResumeAllowed (dismissal deployments s app nowMs) →
      fail (.journal e) s' (h' ++ [⟨.resume (dismissal deployments s app nowMs), .failed e stored⟩])) :
    Runs s₀ (resumeDismiss deployments app nowMs) post fail s h := by
  refine meets_bind.mpr (meets_get.mpr ?_)
  split
  · exact nothing
  · refine meets_bind.mpr (recordPauses_runs disk (fun n h' disk' pauses => ?_) pauseLost)
    have allowed : (notePauses (some app) s (pauseCandidates deployments)).ResumeAllowed
        (dismissal deployments s app nowMs) :=
      dismissal_allowed.of_events notePauses_events
    have applies := ControlState.applyResume_ok.mpr ⟨allowed, rfl⟩
    refine meets_bind.mpr (write_runs (r := .resume _) disk' applies ?_ fun e stored => ?_)
    · exact dismissed h' _ _ _ pauses rfl disk' allowed
    · exact lost e stored h' _ pauses disk' rfl allowed

theorem resumeSelect_runs {post : Resumed → ControlState → Writes → Prop} (disk : onDisk s₀ h = s)
    (kind : choice ≠ .dismiss)
    (invalid : ∀ why, checkChoice choice = .error why → fail (.invalid why) s h)
    (conflict : ∀ why, fail (.conflict why) s h)
    (already : ∀ p, s.pendingSelection app = some p → choice = .revision p.record.revision →
      post (.alreadySelected p.record.delivery) s h)
    (selected : ∀ chosen n, checkChoice choice = .ok () → s.pendingSelection app = none →
      choose app choice (s.held app) = .ok chosen →
      s.ResumeAllowed (selection s app choice chosen nowMs) →
      post (.selected chosen.record.delivery chosen.record.revision n)
        (s.settleResume (selection s app choice chosen nowMs))
        (h ++ [⟨.resume (selection s app choice chosen nowMs), .acknowledged⟩]))
    (lost : ∀ e stored chosen, checkChoice choice = .ok () → choose app choice (s.held app) = .ok chosen →
      s.ResumeAllowed (selection s app choice chosen nowMs) →
      fail (.journal e) s (h ++ [⟨.resume (selection s app choice chosen nowMs), .failed e stored⟩])) :
    Runs s₀ (resumeSelect app choice nowMs) post fail s h := by
  refine meets_bind.mpr (refuse_runs (fun _ checked => ?_) invalid)
  refine meets_bind.mpr (meets_get.mpr ?_)
  cases pending : s.pendingSelection app with
  | some p =>
    dsimp only
    split
    next same => exact already p pending same
    next => exact conflict _
  | none =>
    dsimp only
    split
    · exact conflict _
    · refine meets_bind.mpr (refuse_runs (fun chosen chose => ?_) fun why _ => conflict why)
      have allowed : s.ResumeAllowed (selection s app choice chosen nowMs) :=
        selection_allowed kind pending (choose_mem chose)
      have applies := ControlState.applyResume_ok.mpr ⟨allowed, rfl⟩
      refine meets_bind.mpr (write_runs (r := .resume _) disk applies ?_ fun e stored => ?_)
      · exact selected chosen _ checked pending chose allowed
      · exact lost e stored chosen checked chose allowed

end Operations

/-! ## Every sequence of operations -/

/-- The states that the operations reach, each call starting from what the journal then holds. -/
inductive Reachable : ControlState → Prop where
  | new : Reachable .new
  | next {s : ControlState} {h : Writes} {q : Program ControlSig (Except ControlError Outcome × ControlState)}
      (op : ControlOp) (before : Reachable s) (follows : Program.Follows (op.run.toProgram s) h q) :
      Reachable (onDisk s h)

/-- A decision was recorded. -/
def Resumed.isAccepted : Resumed → Bool
  | .dismissed _ _ | .selected _ _ _ => true
  | .alreadySelected _ | .nothingToDo => false

/-- How a call of an operation may end: with `out`, having written `h` and leaving `s'` in memory. -/
structure Ended (s : ControlState) (op : ControlOp) (out : Except ControlError Outcome) (s' : ControlState)
    (h : Writes) : Prop where
  /-- What is in memory is what the journal holds. -/
  returned : ∀ res, out = .ok res → onDisk s h = s' ∧ ∀ e ∈ h, e.answer = .acknowledged
  /-- A refusal wrote nothing and changed nothing. -/
  refused : ∀ why, out = .error (.invalid why) ∨ out = .error (.conflict why) → h = [] ∧ s' = s
  /-- Before a write that failed, only pauses were written, and they are in memory. -/
  lost : ∀ e, out = .error (.journal e) → ∃ before r stored, h = before ++ [⟨r, .failed e stored⟩] ∧
    PausesSince [] before ∧ onDisk s before = s'
  /-- An accepted decision decided every event that was held. -/
  decided : ∀ deployments app choice nowMs res, op = .resume deployments app choice nowMs →
    out = .ok (.resumed res) → res.isAccepted = true → ∀ e ∈ s.held app,
      ∃ e', s'.event app e.record.delivery = some e' ∧ e'.status.isDecided = true

section

variable {s s' : ControlState} {op : ControlOp} {h : Writes} {r : ControlRecord}

theorem PausesSince.acknowledged (pauses : PausesSince [] h) : ∀ e ∈ h, e.answer = .acknowledged := by
  obtain ⟨k, rfl, all⟩ := pauses
  exact fun e mem => (all e mem).1

/-- A call that ended normally after its last write, which applied. -/
theorem Ended.wrote {res : Outcome} {s₁ : ControlState} (pauses : PausesSince [] h) (disk : onDisk s h = s₁)
    (applies : s₁.apply r = .ok s')
    (decided : ∀ deployments app choice nowMs r', op = .resume deployments app choice nowMs →
      res = .resumed r' → ∀ e ∈ s.held app,
        ∃ e', s'.event app e.record.delivery = some e' ∧ e'.status.isDecided = true) :
    Ended s op (.ok res) s' (h ++ [⟨r, .acknowledged⟩]) where
  returned _ _ := by
    refine ⟨?_, fun e mem => ?_⟩
    · rw [onDisk_append, disk]
      exact onDisk_acknowledged applies
    · rcases List.mem_append.mp mem with mem | mem
      · exact pauses.acknowledged e mem
      · cases List.mem_singleton.mp mem; rfl
  refused _ other := by rcases other with other | other <;> cases other
  lost _ other := by cases other
  decided deployments app choice nowMs r' isOp isRes _ := by
    cases isRes
    exact decided deployments app choice nowMs r' isOp rfl

/-- A call that ended normally without a write. -/
theorem Ended.read {res : Outcome} (undecided : ∀ r', res = .resumed r' → r'.isAccepted = false) :
    Ended s op (.ok res) s [] where
  returned _ _ := ⟨rfl, fun _ mem => by cases mem⟩
  refused _ other := by rcases other with other | other <;> cases other
  lost _ other := by cases other
  decided _ _ _ _ r' _ isRes accepted := by
    cases isRes
    cases (undecided r' rfl).symm.trans accepted

theorem Ended.invalid {why : String} : Ended s op (.error (.invalid why)) s [] where
  returned _ other := by cases other
  refused _ _ := ⟨rfl, rfl⟩
  lost _ other := by cases other
  decided _ _ _ _ _ _ other := by cases other

theorem Ended.conflict {why : String} : Ended s op (.error (.conflict why)) s [] where
  returned _ other := by cases other
  refused _ _ := ⟨rfl, rfl⟩
  lost _ other := by cases other
  decided _ _ _ _ _ _ other := by cases other

theorem Ended.failed {e : JournalError} {stored : Bool} (pauses : PausesSince [] h) (disk : onDisk s h = s') :
    Ended s op (.error (.journal e)) s' (h ++ [⟨r, .failed e stored⟩]) where
  returned _ other := by cases other
  refused _ other := by rcases other with other | other <;> cases other
  lost e' same := by
    cases same
    exact ⟨h, r, stored, rfl, pauses, disk⟩
  decided _ _ _ _ _ _ other := by cases other

theorem Ended.pauseLost {e : ControlError} (lost : PauseLost s [] e s' h) : Ended s op (.error e) s' h := by
  obtain ⟨before, p, err, stored, rfl, pauses, disk, rfl⟩ := lost.failed
  exact .failed pauses disk

/-- Each operation hands over only records that are accepted, and ends as described. -/
theorem op_runs (s : ControlState) (op : ControlOp) :
    Runs s op.run (fun res s' h => Ended s op (.ok res) s' h) (fun e s' h => Ended s op (.error e) s' h) s [] := by
  have unread : ∀ (i : Ingress) (r : Resumed), Outcome.ingress i = .resumed r → r.isAccepted = false :=
    fun _ _ h => by cases h
  cases op with
  | queueEvent ev =>
    refine meets_map.mpr (queueEvent_runs rfl (fun _ _ => .invalid) (fun _ _ _ => .conflict)
      (fun _ _ _ _ => .read (unread _)) (fun free _ => ?_) fun e stored _ => .failed .refl rfl)
    exact .wrote .refl rfl (apply_event free) fun _ _ _ _ _ isOp => by cases isOp
  | ingest deployments ev =>
    refine meets_map.mpr (ingest_runs rfl (fun _ _ => .invalid) .conflict (.read (unread _)) (.read (unread _))
      (fun h' s' free _ pauses _ disk => ?_) (fun _ _ _ => .pauseLost)
      fun e stored h' s' _ pauses disk => .failed pauses disk)
    exact .wrote pauses disk (apply_event free) fun _ _ _ _ _ isOp => by cases isOp
  | recordExec x =>
    refine meets_bind.mpr (recordExec_runs rfl (fun _ _ => .conflict) (fun s' applies => ?_)
      fun e stored _ _ => .failed .refl rfl)
    exact .wrote .refl rfl applies fun _ _ _ _ _ isOp => by cases isOp
  | resume deployments app choice nowMs =>
    have accounts : ∀ {s₁ : ControlState} {y : ResumeRec}, y.app = app → s₁.events = s.events →
        s₁.ResumeAllowed y → ∀ d a c n (r : Resumed), ControlOp.resume deployments app choice nowMs = .resume d a c n →
        Outcome.resumed r = .resumed r → ∀ e ∈ s.held a,
          ∃ e', (s₁.settleResume y).event a e.record.delivery = some e' ∧ e'.status.isDecided = true := by
      rintro s₁ y rfl same allowed _ _ _ _ _ isOp _ e held
      cases isOp
      refine allowed.decides ?_
      rwa [ControlState.held, ControlState.eventsOf, same]
    refine meets_map.mpr ?_
    have select : choice ≠ .dismiss → Runs s (resumeSelect app choice nowMs)
        (fun r s' h => Ended s (.resume deployments app choice nowMs) (.ok (.resumed r)) s' h)
        (fun e s' h => Ended s (.resume deployments app choice nowMs) (.error e) s' h) s [] := by
      intro kind
      refine resumeSelect_runs rfl kind (fun _ _ => .invalid) (fun _ => .conflict)
        (fun p _ _ => .read fun r' same => by cases same; rfl)
        (fun chosen n _ _ _ allowed => ?_) fun e stored chosen _ _ _ => .failed .refl rfl
      refine .wrote .refl rfl (ControlState.applyResume_ok.mpr ⟨allowed, rfl⟩) ?_
      intro d a c n r isOp isRes
      exact accounts rfl rfl allowed d a c n r isOp rfl
    cases choice with
    | dismiss =>
      refine resumeDismiss_runs rfl (.read fun r' same => by cases same; rfl)
        (fun h' s' _ _ pauses same disk allowed => ?_) (fun _ _ _ => .pauseLost)
        fun e stored h' s' pauses disk _ _ => .failed pauses disk
      refine .wrote pauses disk (ControlState.applyResume_ok.mpr ⟨allowed, rfl⟩) ?_
      intro d a c n r isOp isRes
      exact accounts rfl (by rw [same, notePauses_events]) allowed d a c n r isOp rfl
    | newest => exact select fun h => by cases h
    | revision r => exact select fun h => by cases h
  | syncPauses deployments =>
    refine meets_map.mpr (recordPauses_runs rfl (fun n h' disk pauses => ?_) fun _ _ _ => .pauseLost)
    exact {
      returned := fun _ _ => ⟨disk, pauses.acknowledged⟩
      refused := fun _ other => by rcases other with other | other <;> cases other
      lost := fun _ other => by cases other
      decided := fun _ _ _ _ _ isOp => by cases isOp }

/-- Run lemma: no application ever has two selected events. -/
theorem Reachable.oneSelected (reachable : Reachable s) : s.OneSelected := by
  induction reachable with
  | new => exact fun e mem => by cases mem
  | next op _ _ ih => exact onDisk_invariant (fun _ _ _ _ one applies => one.apply applies) ih

/-- How a call ends, as `op_runs` says. -/
theorem Ended.of_follows {out : Except ControlError Outcome}
    (follows : Program.Follows (op.run.toProgram s) h (.done (out, s'))) : Ended s op out s' h := by
  have ended := (op_runs s op).ended follows
  rw [seen_remember, List.nil_append] at ended
  cases out <;> exact ended

/-- The state a call leaves in memory is one that the operations reach, so a caller may go on from it. -/
theorem Reachable.of_follows {out : Except ControlError Outcome} (reachable : Reachable s)
    (follows : Program.Follows (op.run.toProgram s) h (.done (out, s'))) : Reachable s' := by
  have ended := Ended.of_follows follows
  cases out with
  | ok res => exact (ended.returned res rfl).1 ▸ .next op reachable follows
  | error e =>
    cases e with
    | invalid why => exact (ended.refused why (.inl rfl)).2 ▸ reachable
    | conflict why => exact (ended.refused why (.inr rfl)).2 ▸ reachable
    | journal e =>
      obtain ⟨before, r, stored, rfl, _, disk⟩ := ended.lost e rfl
      -- As if the write that failed had not been stored.
      obtain ⟨next, asked, _⟩ := follows.asked
      have unstored : Program.Follows (op.run.toProgram s) (before ++ [⟨r, Written.failed e false⟩])
          (next (.failed e false)) := asked.trans (.step _ (.here _))
      have reached := Reachable.next op reachable unstored
      rw [onDisk_append, disk] at reached
      exact reached

/-- For every sequence of operations, each cut short anywhere: at most one event of an application is
selected, events are never forgotten and only move forward, what is written is accepted, and a call ends
with nothing written but what `Ended` says. -/
theorem queue_invariants (reachable : Reachable s) (op : ControlOp)
    {q : Program ControlSig (Except ControlError Outcome × ControlState)}
    (follows : Program.Follows (op.run.toProgram s) h q) :
    (onDisk s h).OneSelected ∧ s.Moved (onDisk s h) ∧
      (∀ before e rest, h = before ++ e :: rest → ∃ s', (onDisk s before).apply e.op = .ok s') ∧
      ∀ out s', q = .done (out, s') → Ended s op out s' h ∧ Reachable s' := by
  obtain ⟨_, lawful⟩ := Program.Obeys.follows (op_runs s op) follows
  refine ⟨(Reachable.next op reachable follows).oneSelected, onDisk_moved, ?_, ?_⟩
  · intro before e rest split
    have accepted := lawful_iff.mp lawful before e rest split
    rwa [seen_remember, List.nil_append] at accepted
  · rintro out s' rfl
    exact ⟨.of_follows follows, reachable.of_follows follows⟩

end

/-! ### A push to a paused application -/

namespace Push

def app : ApplicationId := ⟨1#128⟩

/-- A deployment whose cutover failed. -/
def broken : Deployment :=
  { Deployment.new ⟨2#128⟩ app .manual 0 with status := .failed, cutover := .failed 5 }

def push : Incoming := ⟨app, "d1", "github", "abc", 7⟩

def ingestion : ControlOp := .ingest [broken] push

/-- A journal that takes pauses and fails to take anything else. -/
def answers : ControlRecord → Written
  | .pause _ => .acknowledged
  | .event _ | .resume _ | .exec _ => .failed .crash false

def played : Writes × Except ControlError Outcome × ControlState :=
  (ingestion.run.toProgram .new).play answers

end Push

/-- The invariants, of a push whose pause is recorded and whose event is not. -/
theorem queue_invariants_pushed :
    (onDisk .new Push.played.1).OneSelected ∧ ControlState.new.Moved (onDisk .new Push.played.1) ∧
      (∀ before e rest, Push.played.1 = before ++ e :: rest →
        ∃ s', (onDisk .new before).apply e.op = .ok s') ∧
      ∀ out s', (.done Push.played.2 : Program ControlSig _) = .done (out, s') →
        Ended .new Push.ingestion out s' Push.played.1 ∧ Reachable s' :=
  queue_invariants .new Push.ingestion (Program.play_follows _ _)

/-- A failed call may leave the pauses it had recorded. -/
theorem ingest_failed_after_pause :
    ∃ h e s', Program.Follows (Push.ingestion.run.toProgram .new) h (.done (.error e, s')) ∧
      s' ≠ .new ∧ ∃ w ∈ h, w.answer = .acknowledged := by
  have failed : Push.played.2.1.isOk = false := by decide
  have changed : Push.played.2.2 ≠ .new := by decide
  have written : Push.played.1.any (fun w => w.answer = .acknowledged) = true := by decide
  cases out : Push.played.2.1 with
  | ok res => rw [out] at failed; cases failed
  | error e =>
    have follows : Program.Follows (Push.ingestion.run.toProgram .new) Push.played.1
        (.done (.error e, Push.played.2.2)) := Program.play_follows_pair (S := ControlSig) Push.answers _ out
    exact ⟨Push.played.1, e, Push.played.2.2, follows, changed, by simpa using written⟩

end Harpoon.Control
