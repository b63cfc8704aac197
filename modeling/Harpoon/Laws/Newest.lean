import Harpoon.Laws.Operations

/-!
# Newest wins

The executor of an application that is not paused, and a developer who resumes with the newest event,
choose the same event: the one received last, and of those received together the one recorded last. All
others that were held are superseded by it.

An event that a developer selected is executed as it is, and supersedes nothing; what was queued since
stays held for the next pass.
-/

namespace Harpoon.Control

open Deploy Interact Process

section

variable {s s' : ControlState} {app : ApplicationId} {deployments deployments' : List Deployment}
  {chosen e : Event} {held : List Event} {superseded : List String} {x : ExecRec} {h : Writes}

/-- No held event was received after the newest one. -/
theorem newestOf_receivedMs (newest : newestOf held = some chosen) (mem : e ∈ held) :
    e.record.receivedMs ≤ chosen.record.receivedMs := by
  cases held with
  | nil => cases mem
  | cons a held =>
    cases newest
    induction held generalizing a e with
    | nil => rw [List.mem_singleton.mp mem]; exact Nat.le_refl _
    | cons b held ih =>
      rw [List.foldl_cons]
      have left : a.record.receivedMs ≤ (later a b).record.receivedMs := by
        unfold later; split
        · assumption
        · exact Nat.le_refl _
      have right : b.record.receivedMs ≤ (later a b).record.receivedMs := by
        unfold later; split
        · exact Nat.le_refl _
        · omega
      have top : (later a b).record.receivedMs ≤ _ := ih (later a b) List.mem_cons_self
      rcases List.mem_cons.mp mem with rfl | mem
      · exact Nat.le_trans left top
      · rcases List.mem_cons.mp mem with rfl | mem
        · exact Nat.le_trans right top
        · exact ih (later a b) (List.mem_cons_of_mem _ mem)

/-! ## What is chosen -/

theorem nextExecution_selected (next : nextExecution deployments s app = .selected chosen) :
    s.pendingSelection app = some chosen := by
  unfold nextExecution at next
  split at next
  next pending => cases next; exact pending
  next =>
    split at next
    · cases next
    · split at next <;> cases next

theorem nextExecution_newest (next : nextExecution deployments s app = .newest chosen superseded) :
    s.pendingSelection app = none ∧ newestOf (s.held app) = some chosen ∧
      superseded = others chosen (s.held app) := by
  unfold nextExecution at next
  split at next
  · cases next
  next free =>
    split at next
    · cases next
    · split at next
      · cases next
      next newest => cases next; exact ⟨free, newest, rfl⟩

theorem nextExecution_eq (unpaused : isPaused app deployments s = false) (free : s.pendingSelection app = none)
    (newest : newestOf (s.held app) = some chosen) :
    nextExecution deployments s app = .newest chosen (others chosen (s.held app)) := by
  simp [nextExecution, free, unpaused, newest]

theorem newestOf_eq_none : newestOf held = none ↔ held = [] := by
  cases held <;> simp [newestOf]

/-- An application with something to do, that is not paused, has a next execution. -/
theorem nextExecution_ne_nothing (unpaused : isPaused app deployments s = false)
    (waiting : s.held app ≠ [] ∨ (s.pendingSelection app).isSome = true) :
    nextExecution deployments s app ≠ .nothing := by
  intro next
  cases pending : s.pendingSelection app with
  | some p => simp [nextExecution, pending] at next
  | none =>
    cases newest : newestOf (s.held app) with
    | some c => rw [nextExecution_eq unpaused pending newest] at next; cases next
    | none =>
      rcases waiting with held | selected
      · exact held (newestOf_eq_none.mp newest)
      · rw [pending] at selected; cases selected

/-! ## Recording what was chosen -/

/-- The record of the execution of what `nextExecution` chose. -/
structure Records (x : ExecRec) (app : ApplicationId) (chosen : Event) (superseded : List String) : Prop where
  app : x.app = app
  delivery : x.delivery = chosen.record.delivery
  superseded : x.superseded = superseded
  agrees : ControlState.outcomeAgrees x = true

theorem newest_allowed (records : Records x app chosen superseded)
    (next : nextExecution deployments s app = .newest chosen superseded) : s.ExecAllowed x chosen := by
  obtain ⟨free, newest, isOthers⟩ := nextExecution_newest next
  have mem := newestOf_mem newest
  obtain ⟨rfl, delivery, rfl, agrees⟩ := records
  refine ⟨delivery ▸ ControlState.event_of_mem_held mem, ?_, agrees, ?_⟩
  · rw [(ControlState.mem_held.mp mem).2.2]; rfl
  · intro d named
    obtain ⟨e, held, other, rfl⟩ := mem_others.mp (isOthers ▸ named)
    exact ⟨e, ControlState.event_of_mem_held held, delivery ▸ other, (ControlState.mem_held.mp held).2.2,
      newestOf_receivedMs newest held⟩

theorem selected_allowed (records : Records x app chosen [])
    (next : nextExecution deployments s app = .selected chosen) : s.ExecAllowed x chosen := by
  obtain ⟨found, selected⟩ := ControlState.pendingSelection_some (nextExecution_selected next)
  obtain ⟨rfl, delivery, none, agrees⟩ := records
  refine ⟨delivery ▸ found, by rw [selected]; rfl, agrees, fun d named => ?_⟩
  rw [none] at named
  cases named

/-- What is still waiting after an execution was waiting before, and was not named by it. -/
theorem waiting_of_settleExec (allowed : s.ExecAllowed x chosen) (mem : e ∈ (s.settleExec x).events.rows)
    (here : e.record.app = x.app) (waiting : e.status.isWaiting = true) :
    s.event x.app e.record.delivery = some e ∧ e.record.delivery ≠ x.delivery ∧
      e.record.delivery ∉ x.superseded := by
  have found := Keyed.Table.find_of_mem mem
  rw [ControlState.find_settleExec allowed] at found
  split at found
  · cases found
    cases outcome : x.outcome <;>
      simp [Event.settleBy, Event.settle, ControlState.execStatus, outcome, EventStatus.isWaiting] at waiting
  next other =>
    split at found
    · obtain ⟨_, _, rfl⟩ := Option.map_eq_some_iff.mp found
      cases waiting
    next unnamed =>
      refine ⟨?_, fun same => other (Prod.ext here same), fun named => unnamed ⟨here, named⟩⟩
      rw [ControlState.event_eq, ← here]
      exact found

/-- Executing the newest event leaves nothing waiting: all others are superseded by it. -/
theorem newest_settles (records : Records x app chosen superseded)
    (next : nextExecution deployments s app = .newest chosen superseded) :
    (s.settleExec x).held app = [] ∧ (s.settleExec x).pendingSelection app = none ∧
      ∀ e ∈ s.held app, e.record.delivery ≠ chosen.record.delivery →
        (s.settleExec x).event app e.record.delivery =
          some (e.settleBy (.superseded .newerSelected) x.atMs (some chosen.record.delivery)) := by
  have allowed := newest_allowed records next
  obtain ⟨free, newest, isOthers⟩ := nextExecution_newest next
  obtain ⟨rfl, delivery, rfl, _⟩ := records
  have none_waits : ∀ e ∈ (s.settleExec x).events.rows, e.record.app = x.app → e.status.isWaiting = false := by
    intro e mem here
    cases waiting : e.status.isWaiting with
    | false => rfl
    | true =>
      obtain ⟨found, other, unnamed⟩ := waiting_of_settleExec allowed mem here waiting
      cases status : e.status with
      | held =>
        have held := ControlState.mem_held_of_event found status
        exact absurd (isOthers ▸ mem_others.mpr ⟨e, held, delivery ▸ other, rfl⟩) unnamed
      | selected =>
        exact absurd status (ControlState.pendingSelection_none.mp free e (Keyed.Table.mem_of_find found) here)
      | dismissed | superseded _ | executed | failed => rw [status] at waiting; cases waiting
  refine ⟨?_, ?_, ?_⟩
  · refine List.eq_nil_iff_forall_not_mem.mpr fun e mem => ?_
    obtain ⟨mem, here, status⟩ := ControlState.mem_held.mp mem
    have waits := none_waits e mem here
    rw [status] at waits; cases waits
  · refine ControlState.pendingSelection_none.mpr fun e mem here status => ?_
    have waits := none_waits e mem here
    rw [status] at waits; cases waits
  · intro e held other
    have named : e.record.delivery ∈ x.superseded := isOthers ▸ mem_others.mpr ⟨e, held, other, rfl⟩
    have apart : (x.app, e.record.delivery) ≠ (x.app, x.delivery) := by
      intro same
      exact other ((congrArg Prod.snd same).trans delivery)
    rw [ControlState.event_eq, ControlState.find_settleExec allowed, if_neg apart, if_pos ⟨rfl, named⟩,
      ← ControlState.event_eq, ControlState.event_of_mem_held held, ← delivery]
    rfl

/-- Executing a selected event leaves none selected, and every held event as it was. -/
theorem selected_settles (one : s.OneSelected) (records : Records x app chosen [])
    (next : nextExecution deployments s app = .selected chosen) :
    (s.settleExec x).pendingSelection app = none ∧
      ∀ e ∈ s.held app, (s.settleExec x).event app e.record.delivery = some e := by
  have allowed := selected_allowed records next
  obtain ⟨found, selected⟩ := ControlState.pendingSelection_some (nextExecution_selected next)
  obtain ⟨rfl, delivery, none, _⟩ := records
  constructor
  · refine ControlState.pendingSelection_none.mpr fun e mem here status => ?_
    obtain ⟨old, other, _⟩ := waiting_of_settleExec allowed mem here (by rw [status]; rfl)
    have same := one e (Keyed.Table.mem_of_find old) chosen (Keyed.Table.mem_of_find found) status selected
      (here.trans (ControlState.event_app found).symm)
    exact other (same ▸ delivery.symm)
  · intro e held
    have here := ControlState.event_of_mem_held held
    have apart : (x.app, e.record.delivery) ≠ (x.app, x.delivery) := by
      intro same
      have same : e.record.delivery = chosen.record.delivery := (congrArg Prod.snd same).trans delivery
      rw [same, found] at here
      cases here
      cases selected.symm.trans (ControlState.mem_held.mp held).2.2
    have unnamed : ¬ ((x.app, e.record.delivery).1 = x.app ∧ (x.app, e.record.delivery).2 ∈ x.superseded) := by
      rw [none]
      exact fun named => by cases named.2
    rw [ControlState.event_eq, ControlState.find_settleExec allowed, if_neg apart, if_neg unnamed]
    exact here

/-! ## Both paths -/

/-- Every write was taken. -/
def Taken (h : Writes) : Prop := ∀ w ∈ h, w.answer = .acknowledged

/-- An accepted execution is recorded, unless its write fails. -/
theorem recordExec_ends {out : Except ControlError Unit} (allowed : s.ExecAllowed x chosen)
    (follows : Program.Follows ((recordExec x).toProgram s) h (.done (out, s'))) (taken : Taken h) :
    out = .ok () ∧ s' = s.settleExec x := by
  have applies : s.apply (.exec x) = .ok (s.settleExec x) :=
    ControlState.applyExec_ok.mpr ⟨⟨chosen, allowed⟩, rfl⟩
  have ended : Runs s (recordExec x) (fun _ s' _ => s' = s.settleExec x)
      (fun _ _ h => ∃ w ∈ h, w.answer ≠ .acknowledged) s [] := by
    refine recordExec_runs rfl (fun why refused => ?_) (fun s' ok => ?_) fun e stored _ _ => ?_
    · cases applies.symm.trans refused
    · cases applies.symm.trans ok; rfl
    · exact ⟨_, List.mem_singleton_self _, fun same => by cases same⟩
  have left := Program.Obeys.ended ended follows
  rw [seen_remember, List.nil_append] at left
  cases out with
  | ok _ => exact ⟨rfl, left⟩
  | error e =>
    obtain ⟨w, mem, lost⟩ := left
    exact absurd (taken w mem) lost

/-- A resume with the newest event selects it, unless its write fails. -/
theorem resumeNewest_ends {out : Except ControlError Resumed} {nowMs : Nat} (held : s.held app ≠ [])
    (free : s.pendingSelection app = none)
    (follows : Program.Follows ((resume deployments app .newest nowMs).toProgram s) h (.done (out, s')))
    (taken : Taken h) :
    ∃ chosen n, newestOf (s.held app) = some chosen ∧
      out = .ok (.selected chosen.record.delivery chosen.record.revision n) := by
  have ended : Runs s (resumeSelect app .newest nowMs)
      (fun r _ _ => ∃ chosen n, newestOf (s.held app) = some chosen ∧
        r = .selected chosen.record.delivery chosen.record.revision n)
      (fun _ _ h => ∃ w ∈ h, w.answer ≠ .acknowledged) s [] := by
    cases newest : newestOf (s.held app) with
    | none => exact absurd (newestOf_eq_none.mp newest) held
    | some chosen =>
      unfold resumeSelect
      have chose : choose app .newest (s.held app) = .ok chosen := by simp [choose, newest]
      refine meets_bind.mpr (refuse_runs (fun _ _ => meets_bind.mpr (meets_get.mpr ?_)) fun _ h => by cases h)
      rw [free]
      dsimp only
      rw [if_neg held]
      refine meets_bind.mpr (refuse_runs (fun c same => ?_) fun why refused => ?_)
      · cases chose.symm.trans same
        have allowed : s.ResumeAllowed (selection s app .newest chosen nowMs) :=
          selection_allowed (fun h => by cases h) free (newestOf_mem newest)
        have applies := ControlState.applyResume_ok.mpr ⟨allowed, rfl⟩
        refine meets_bind.mpr (write_runs (r := .resume _) rfl applies ?_ fun e stored => ?_)
        · exact ⟨chosen, _, rfl, rfl⟩
        · exact ⟨_, List.mem_singleton_self _, fun same => by cases same⟩
      · cases chose.symm.trans refused
  have left := Program.Obeys.ended ended follows
  rw [seen_remember, List.nil_append] at left
  cases out with
  | ok r =>
    obtain ⟨chosen, n, newest, rfl⟩ := left
    exact ⟨chosen, n, newest, rfl⟩
  | error e =>
    obtain ⟨w, mem, lost⟩ := left
    exact absurd (taken w mem) lost

/-- What an accepted execution of `chosen` leaves, by what was waiting before. -/
structure Executed (s s' : ControlState) (app : ApplicationId) (chosen : Event) (atMs : Nat) : Prop where
  unselected : s'.pendingSelection app = none
  /-- Nothing was selected: the newest was executed, and supersedes all others. -/
  newest : s.pendingSelection app = none → s'.held app = [] ∧
    ∀ e ∈ s.held app, e.record.receivedMs ≤ chosen.record.receivedMs ∧
      (e.record.delivery ≠ chosen.record.delivery → s'.event app e.record.delivery =
        some (e.settleBy (.superseded .newerSelected) atMs (some chosen.record.delivery)))
  /-- An event was selected: it was executed, and what was held stays held. -/
  selected : ∀ p, s.pendingSelection app = some p →
    chosen = p ∧ ∀ e ∈ s.held app, s'.event app e.record.delivery = some e

/-- Both paths choose the newest event, and their records are accepted. -/
structure NewestWins (s : ControlState) : Prop where
  executes : ∀ app deployments, isPaused app deployments s = false →
    (s.held app ≠ [] ∨ (s.pendingSelection app).isSome = true) →
    ∃ chosen superseded, (nextExecution deployments s app).execution = some (chosen, superseded) ∧
      ∀ x, Records x app chosen superseded → ∀ h out s',
        Program.Follows ((recordExec x).toProgram s) h (.done (out, s')) → Taken h →
        out = .ok () ∧ Executed s s' app chosen x.atMs
  resumes : ∀ app deployments nowMs, s.held app ≠ [] → s.pendingSelection app = none → ∀ h out s',
    Program.Follows ((resume deployments app .newest nowMs).toProgram s) h (.done (out, s')) → Taken h →
    ∃ chosen n, out = .ok (.selected chosen.record.delivery chosen.record.revision n) ∧
      ∀ deployments', isPaused app deployments' s = false →
        ∃ superseded, nextExecution deployments' s app = .newest chosen superseded

/-- The executor of an application that is not paused runs the selected event, or else the newest; its
record is accepted, and leaves nothing waiting but, after a selection, what was held. A resume with the
newest event selects the one that the executor would run. -/
theorem newest_wins (reachable : Reachable s) : NewestWins s := by
  constructor
  · intro app deployments unpaused waiting
    cases next : nextExecution deployments s app with
    | nothing => exact absurd next (nextExecution_ne_nothing unpaused waiting)
    | selected chosen =>
      refine ⟨chosen, [], rfl, fun x records h out s' follows taken => ?_⟩
      have pending := nextExecution_selected next
      obtain ⟨returned, rfl⟩ := recordExec_ends (selected_allowed records next) follows taken
      obtain ⟨unselected, untouched⟩ := selected_settles reachable.oneSelected records next
      refine ⟨returned, unselected, fun free => ?_, fun p isPending => ?_⟩
      · cases pending.symm.trans free
      · cases pending.symm.trans isPending
        exact ⟨rfl, untouched⟩
    | newest chosen superseded =>
      refine ⟨chosen, superseded, rfl, fun x records h out s' follows taken => ?_⟩
      obtain ⟨free, newest, _⟩ := nextExecution_newest next
      obtain ⟨returned, rfl⟩ := recordExec_ends (newest_allowed records next) follows taken
      obtain ⟨unheld, unselected, settled⟩ := newest_settles records next
      refine ⟨returned, unselected, fun _ => ⟨unheld, fun e mem => ?_⟩, fun p isPending => ?_⟩
      · exact ⟨newestOf_receivedMs newest mem, settled e mem⟩
      · cases free.symm.trans isPending
  · intro app deployments nowMs held free h out s' follows taken
    obtain ⟨chosen, n, newest, returned⟩ := resumeNewest_ends held free follows taken
    exact ⟨chosen, n, returned, fun _ unpaused => ⟨_, nextExecution_eq unpaused free newest⟩⟩

end

/-! ### A push while another is selected -/

namespace Queued

def app : ApplicationId := ⟨1#128⟩

def push (delivery : String) (receivedMs : Nat) : ControlOp :=
  .queueEvent ⟨app, delivery, "github", "abc", receivedMs⟩

/-- The state after an operation whose writes are all taken. -/
def after (s : ControlState) (op : ControlOp) : ControlState :=
  onDisk s ((op.run.toProgram s).play (S := ControlSig) fun _ => .acknowledged).1

theorem reachable_after {s : ControlState} (reachable : Reachable s) (op : ControlOp) :
    Reachable (after s op) :=
  .next op reachable (Program.play_follows _ _)

/-- Two events are held. -/
def waiting : ControlState := after (after .new (push "d1" 7)) (push "d2" 9)

theorem waiting_reachable : Reachable waiting :=
  reachable_after (reachable_after .new _) _

/-- One event was selected, and a newer one came in. -/
def state : ControlState :=
  after (after (after .new (push "d1" 7)) (.resume [] app .newest 8)) (push "d2" 9)

theorem reachable : Reachable state :=
  reachable_after (reachable_after (reachable_after .new _) _) _

end Queued

theorem newest_wins_queued :
    NewestWins Queued.waiting ∧ isPaused Queued.app [] Queued.waiting = false ∧
      Queued.waiting.held Queued.app ≠ [] ∧ Queued.waiting.pendingSelection Queued.app = none :=
  ⟨newest_wins Queued.waiting_reachable, by decide, by decide, by decide⟩

/-- The executed event need not be the newest: what came in after it was selected stays held. -/
theorem selection_leaves_newer_held :
    ∃ s, Reachable s ∧ isPaused Queued.app [] s = false ∧
      (nextExecution [] s Queued.app).execution.any (fun p =>
        match s.apply (.exec ⟨Queued.app, p.1.record.delivery, .failed, none, "", p.2, 9⟩) with
        | .ok s' => !(s'.held Queued.app).isEmpty
        | .error _ => false) = true :=
  ⟨Queued.state, Queued.reachable, by decide, by decide⟩

end Harpoon.Control
