import Harpoon.Deploy.Engine
import Harpoon.Laws.Reachable
import Harpoon.Laws.Transitions

/-!
# The trail of a process, and the protocol it keeps

`Trail` follows a process of the engine from outside: what the journal holds of the deployment, and
which calls of the backend were made, with what they returned and what the clock showed before and
after. `Rule` is the protocol between the two: what the journal must hold before a release is stopped
and before one is restored, and what a snapshot must say once they were.
-/

namespace Harpoon.Deploy

open Interact Process

/-! ## Calls -/

/-- One call of the backend. -/
structure CallRecord where
  call : Call
  budgetMs : Nat
  /-- The clock as the engine read it before the call. -/
  beganMs : Nat
  returned : Option ((c : Call) × Except StepError c.Ret)
  /-- The clock as the engine first read it after the call. -/
  endedMs : Option Nat
  /-- Whether the backend said that it accepts simulated evidence. -/
  accepts : Option Bool

/-- Does the result carry a failed write? -/
def fatalIn {α : Type} : Except StepError α → Bool
  | .error e => e.fatal.isSome
  | .ok _ => false

namespace CallRecord

/-- The clock was read: the first time after the call returned, it is when the call ended. -/
def read (c : CallRecord) (ms : Nat) : CallRecord :=
  if c.returned.isSome && c.endedMs.isNone then { c with endedMs := some ms } else c

/-- It ended within its budget. -/
def Within (c : CallRecord) : Prop := ∃ ended, c.endedMs = some ended ∧ ended - c.beganMs ≤ c.budgetMs

/-- It returned without an error, within its budget. -/
def InTime (c : CallRecord) : Prop := (∃ v, c.returned = some ⟨c.call, .ok v⟩) ∧ c.Within

theorem InTime.not_error {c : CallRecord} {which : Call} {e : StepError} (inTime : c.InTime) :
    c.returned ≠ some ⟨which, .error e⟩ := by
  intro failed
  obtain ⟨⟨v, returned⟩, _⟩ := inTime
  cases returned.symm.trans failed

/-- The evidence it returned, if it is a check. -/
def evidence (c : CallRecord) : Option CheckEvidence :=
  match c.returned with
  | some ⟨.preliminaryCheck, .ok ev⟩ | some ⟨.finalCheck, .ok ev⟩ => some ev
  | _ => none

end CallRecord

/-- The budget of each call. -/
def RunConfig.budgetFor (cfg : RunConfig) : Call → Nat
  | .prepareSource => cfg.budgets.sourceMs
  | .build => cfg.budgets.buildMs
  | .preliminaryCheck => cfg.budgets.preliminaryMs
  | .planRelease | .stopCurrent _ | .startNew => cfg.budgets.cutoverMs
  | .finalCheck => cfg.budgets.finalMs
  | .stopNew => cfg.budgets.cleanupMs
  | .restoreBlockers _ | .restorePrevious _ _ => cfg.policy.restoreBudgetMs

/-- The call came to what it was made for: it returned in time, and its evidence stands. -/
structure CallRecord.Earned (cfg : RunConfig) (c : CallRecord) : Prop where
  budget : c.budgetMs = cfg.budgetFor c.call
  inTime : c.InTime
  evidence : ∀ ev, c.evidence = some ev →
    ev.validate = .ok () ∧ (ev.simulated = true → c.accepts = some true)

namespace Call

def isStopCurrent : Call → Bool
  | .stopCurrent _ => true
  | _ => false

def isRestorePrevious : Call → Bool
  | .restorePrevious _ _ => true
  | _ => false

end Call

/-- A call of this kind was made. -/
def made (kind : Call → Bool) (calls : List CallRecord) : Bool := calls.any fun c => kind c.call

/-! ## The trail -/

structure Trail where
  /-- The last snapshot of the deployment that the journal acknowledged. -/
  acked : Option Deployment
  /-- The last snapshot that it stored. -/
  stored : Option Deployment
  /-- A write of the engine was reported as failed, or a call returned that one of its own was. -/
  lost : Bool
  clock : Nat
  /-- The calls made, the last one first. -/
  calls : List CallRecord

namespace Trail

def start : Trail := ⟨none, none, false, 0, []⟩

/-- Change the record of the last call. -/
def onLast (t : Trail) (f : CallRecord → CallRecord) : Trail :=
  { t with calls := match t.calls with
      | [] => []
      | c :: cs => f c :: cs }

/-- The last call has not returned yet. -/
def inCall (t : Trail) : Bool := t.calls.head?.any fun c => c.returned.isNone

def wrote (t : Trail) (d : Deployment) : Written → Trail
  | .acknowledged => { t with acked := some d, stored := some d }
  | .failed _ stored => { t with stored := if stored then some d else t.stored, lost := true }

def see (t : Trail) : Event EngineSig → Trail
  | ⟨.nowMs, ms⟩ => { t with clock := ms }.onLast (·.read ms)
  | ⟨.persist d, w⟩ => t.wrote d w
  | ⟨.record _, .failed _ _⟩ => if t.inCall then t else { t with lost := true }
  | ⟨.call c budgetMs, _⟩ => { t with calls := ⟨c, budgetMs, t.clock, none, none, none⟩ :: t.calls }
  | ⟨.result c, res⟩ =>
    { t with lost := t.lost || fatalIn res }.onLast fun r => { r with returned := some ⟨c, res⟩ }
  | ⟨.acceptsSimulatedEvidence, accepts⟩ => t.onLast fun r => { r with accepts := some accepts }
  | _ => t

/-- The trail of a history. -/
def of (h : History EngineSig) : Trail := h.seen see start

end Trail

/-! ## What the trail knows of a history -/

/-- The call that an event begins. -/
def call? : Event EngineSig → Option Call
  | ⟨.call c _, _⟩ => some c
  | _ => none

/-- The calls of a history, in the order they were made. -/
def callsOf (h : History EngineSig) : List Call := h.filterMap call?

/-- The snapshot that an event puts on disk. -/
def storedSnapshot? : Event EngineSig → Option Deployment
  | ⟨.persist d, answer⟩ => if answer.isStored then some d else none
  | _ => none

/-- The snapshots of a history that are on disk, in the order they were written. -/
def storedSnapshots (h : History EngineSig) : List Deployment := h.filterMap storedSnapshot?

namespace Trail

variable {t : Trail} {e : Event EngineSig} {h : History EngineSig}

theorem onLast_calls {f : CallRecord → CallRecord} (same : ∀ c, (f c).call = c.call) :
    (t.onLast f).calls.map CallRecord.call = t.calls.map CallRecord.call := by
  obtain ⟨acked, stored, lost, clock, calls⟩ := t
  cases calls with
  | nil => rfl
  | cons c cs => simp only [onLast, List.map_cons, same]

theorem see_calls :
    (t.see e).calls.map CallRecord.call = (call? e).toList ++ t.calls.map CallRecord.call := by
  obtain ⟨op, answer⟩ := e
  cases op with
  | nowMs =>
    refine onLast_calls (t := { t with clock := answer }) fun c => ?_
    unfold CallRecord.read
    split <;> rfl
  | persist d => cases answer <;> rfl
  | record r =>
    cases answer with
    | acknowledged => rfl
    | failed _ _ =>
      show (if t.inCall then t else _ : Trail).calls.map _ = _
      split <;> rfl
  | result c => exact onLast_calls (t := { t with lost := t.lost || fatalIn answer }) fun _ => rfl
  | acceptsSimulatedEvidence => exact onLast_calls fun _ => rfl
  | _ => rfl

/-- The trail knows the calls of the history. -/
theorem seen_calls :
    (h.seen see t).calls.map CallRecord.call = (callsOf h).reverse ++ t.calls.map CallRecord.call := by
  induction h generalizing t with
  | nil => rfl
  | cons e h ih =>
    show (History.seen see (t.see e) h).calls.map _ = _
    rw [ih, see_calls, callsOf, callsOf, List.filterMap_cons]
    cases call? e with
    | none => rfl
    | some c => simp

theorem of_calls : (of h).calls.map CallRecord.call = (callsOf h).reverse :=
  seen_calls.trans (List.append_nil _)

theorem see_stored : (t.see e).stored = (storedSnapshot? e).or t.stored := by
  obtain ⟨op, answer⟩ := e
  cases op with
  | persist d =>
    cases answer with
    | acknowledged => rfl
    | failed _ stored => cases stored <;> rfl
  | record r =>
    cases answer with
    | acknowledged => rfl
    | failed _ _ =>
      show (if t.inCall then t else _ : Trail).stored = _
      split <;> rfl
  | _ => rfl

/-- The trail knows the last snapshot on disk. -/
theorem seen_stored : (h.seen see t).stored = (storedSnapshots h).getLast?.or t.stored := by
  induction h generalizing t with
  | nil => rfl
  | cons e h ih =>
    show (History.seen see (t.see e) h).stored = _
    rw [ih, see_stored, storedSnapshots, storedSnapshots, List.filterMap_cons]
    cases storedSnapshot? e with
    | none => rfl
    | some d =>
      show _ = (List.getLast? (d :: h.filterMap storedSnapshot?)).or t.stored
      rw [List.getLast?_cons]
      cases (h.filterMap storedSnapshot?).getLast? <;> rfl

theorem of_stored : (of h).stored = (storedSnapshots h).getLast? :=
  seen_stored.trans Option.or_none

theorem made_eq {kind : Call → Bool} {calls : List CallRecord} :
    made kind calls = (calls.map CallRecord.call).any kind := by
  rw [List.any_map]; rfl

/-- Only the beginning of a call adds one. -/
theorem made_see {kind : Call → Bool} (e : Event EngineSig) :
    made kind (t.see e).calls = ((call? e).any kind || made kind t.calls) := by
  rw [made_eq, made_eq, see_calls, List.any_append]
  cases call? e <;> simp

theorem made_of {kind : Call → Bool} : made kind (of h).calls = (callsOf h).any kind := by
  rw [made_eq, of_calls, List.any_reverse]

end Trail

/-! ## The protocol -/

/-- The configuration that was planned is pinned. -/
def PlanPinned (d : Deployment) (calls : List CallRecord) : Prop :=
  ∀ c ∈ calls, c.call = .planRelease → ∀ config,
    c.returned = some ⟨.planRelease, .ok (some config)⟩ → d.pinned = some config

/-- The snapshot that must be on disk before the release `prev` is stopped. -/
structure WriteAhead (d₀ : Deployment) (prev : PreviousRelease) (calls : List CallRecord)
    (d : Deployment) : Prop where
  id : d.id = d₀.id
  status : d.status = .running
  succeeded : ∀ s ∈ [Step.source, .build, .preliminaryCheck], (d.step s).status = .succeeded
  begun : d.cutover.isBegun = true
  replaces : d.replaces = some prev.release
  pinned : PlanPinned d calls

/-- If the new release was started in time, it was stopped since. -/
def FreedFirst (calls : List CallRecord) : Prop :=
  ∀ later c earlier, calls = later ++ c :: earlier → c.call = .startNew → c.InTime →
    ∃ c' ∈ later, c'.call = .stopNew

/-- The calls of a run that succeeded, the last one first. -/
def successCalls (previous : Option PreviousRelease) : List Call :=
  [.finalCheck, .startNew] ++ (previous.map Call.stopCurrent).toList
    ++ [.planRelease, .preliminaryCheck, .build, .prepareSource]

structure Won (cfg : RunConfig) (previous : Option PreviousRelease) (calls : List CallRecord) :
    Prop where
  made : calls.map CallRecord.call = successCalls previous
  earned : ∀ c ∈ calls, c.Earned cfg

/-- What the calls made so far say about the deployment. -/
structure Kept (cfg : RunConfig) (previous : Option PreviousRelease) (d₀ d : Deployment)
    (calls : List CallRecord) : Prop where
  ended : ∀ c ∈ calls, c.endedMs.isSome = true
  id : d.id = d₀.id
  stopped : made Call.isStopCurrent calls = true → d.cutover.hasBegun = true
  restored : made Call.isRestorePrevious calls = true → d.recovery.isSome = true
  spent : d₀.recovery.isSome = true → d.recovery.isSome = true
  won : d.status = .succeeded → d₀.status = .succeeded ∨ Won cfg previous calls

/-- What a process on the deployment `d₀` may do. -/
def Rule (cfg : RunConfig) (previous : Option PreviousRelease) (d₀ : Deployment) (t : Trail) :
    EngineOp → Prop
  | .persist d => Kept cfg previous d₀ d t.calls
  | .call (.stopCurrent prev) _ =>
    t.lost = false ∧ ∃ d, t.acked = some d ∧ t.stored = some d ∧ WriteAhead d₀ prev t.calls d
  | .call (.restorePrevious _ _) _ =>
    made Call.isRestorePrevious t.calls = false ∧ d₀.recovery = none ∧
      (∃ d, t.stored = some d ∧ d.recovery.isSome = true) ∧ FreedFirst t.calls
  | .call .stopNew _ => ∀ c ∈ t.calls, c.call = .startNew → c.InTime
  | _ => True

end Harpoon.Deploy
