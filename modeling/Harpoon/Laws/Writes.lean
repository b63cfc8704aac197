import Harpoon.Laws.Operations

/-!
# The records a call may hand over

An operation decides what to write from the state it starts in. `ControlOp.MayWrite` is the list of the
records that each operation may hand to the journal, with what it knows of that state when it does; what is
true of every such record is true of every write of every call, wherever it is cut short.
-/

namespace Harpoon.Control

open Deploy Interact Process

/-- The deployments that a call is given. -/
def ControlOp.deployments : ControlOp → List Deployment
  | .ingest deployments _ | .resume deployments _ _ _ | .syncPauses deployments => deployments
  | .queueEvent _ | .recordExec _ => []

/-- The records that a call may hand over, by the state it starts in. -/
inductive ControlOp.MayWrite (s : ControlState) : ControlOp → ControlRecord → Prop where
  | queued {ev : Incoming} (checked : ev.check = .ok ()) (free : s.event ev.app ev.deliveryId = none) :
      MayWrite s (.queueEvent ev) (.event ev.record)
  | ingested {deployments : List Deployment} {ev : Incoming} (checked : ev.check = .ok ())
      (free : s.event ev.app ev.deliveryId = none) : MayWrite s (.ingest deployments ev) (.event ev.record)
  | executed {x : ExecRec} {s' : ControlState} (applies : s.applyExec x = .ok s') :
      MayWrite s (.recordExec x) (.exec x)
  | dismissed {deployments : List Deployment} {app : ApplicationId} {nowMs : Nat} :
      MayWrite s (.resume deployments app .dismiss nowMs) (.resume (dismissal deployments s app nowMs))
  | selected {deployments : List Deployment} {app : ApplicationId} {choice : Choice} {nowMs : Nat} {chosen : Event}
      (kind : choice ≠ .dismiss) (checked : checkChoice choice = .ok ()) (free : s.pendingSelection app = none)
      (chose : choose app choice (s.held app) = .ok chosen) :
      MayWrite s (.resume deployments app choice nowMs) (.resume (selection s app choice chosen nowMs))
  | paused {op : ControlOp} {c : PauseCandidate} (mem : c ∈ pauseCandidates op.deployments) :
      MayWrite s op (pauseRecord c)

/-- Only the call that records it may write an execution. -/
theorem ControlOp.MayWrite.exec {s : ControlState} {op : ControlOp} {r : ControlRecord} {x : ExecRec}
    (may : op.MayWrite s r) (isExec : r = .exec x) : op = .recordExec x := by
  cases may with
  | executed _ => cases isExec; rfl
  | queued _ _ | ingested _ _ | dismissed | selected _ _ _ _ | paused _ => cases isExec

/-- A decision that selects an event is a call of `resume` that chooses it. -/
theorem ControlOp.MayWrite.selection {s : ControlState} {op : ControlOp} {r : ControlRecord} {y : ResumeRec}
    {d : String} (may : op.MayWrite s r) (isResume : r = .resume y) (picked : y.selected = some d) :
    ∃ deployments choice nowMs chosen, op = .resume deployments y.app choice nowMs ∧ choice ≠ .dismiss ∧
      s.pendingSelection y.app = none ∧ choose y.app choice (s.held y.app) = .ok chosen ∧ chosen.record.delivery = d := by
  cases may with
  | @selected deployments app choice nowMs chosen kind _ free chose =>
    cases isResume
    exact ⟨deployments, choice, nowMs, chosen, rfl, kind, free, chose, Option.some.inj picked⟩
  | dismissed => cases isResume; cases picked
  | queued _ _ | ingested _ _ | executed _ | paused _ => cases isResume

/-- Whatever becomes of its writes, the code hands over only records that satisfy `P`. -/
abbrev Hands {α : Type} (P : ControlRecord → Prop) (x : Writing α) (s : ControlState) (h : Writes) : Prop :=
  Meets remember (fun _ r => P r) x (fun _ _ _ => True) (fun _ _ _ => True) s h

section

variable {α β : Type} {P : ControlRecord → Prop} {x : Writing α} {f : α → Writing β} {s : ControlState}
  {h : Writes} {r : ControlRecord} {only : Option ApplicationId} {cs : List PauseCandidate} {op : ControlOp}
  {deployments : List Deployment} {ev : Incoming} {app : ApplicationId} {choice : Choice} {nowMs : Nat}

theorem hands_bind (first : Hands P x s h) (second : ∀ a s h, Hands P (f a) s h) : Hands P (x >>= f) s h :=
  meets_bind.mpr (first.mono (fun a s h _ => second a s h) fun _ _ _ _ => trivial)

theorem hands_refuse {wrap : String → ControlError} {result : Except String α}
    (rest : ∀ a, result = .ok a → Hands P (f a) s h) : Hands P (refuse wrap result >>= f) s h :=
  meets_bind.mpr (meets_ofExcept rest fun _ _ => trivial)

theorem hands_control (holds : P r) : Hands P (control r) s h := by
  refine meets_bind.mpr (meets_perform.mpr ⟨holds, fun answer => ?_⟩)
  cases answer <;> exact trivial

theorem hands_write (holds : P r) : Hands P (write r) s h := by
  refine hands_bind (hands_control holds) fun _ s h => meets_bind.mpr (meets_get.mpr ?_)
  split <;> exact trivial

theorem hands_recordPauses (holds : ∀ c ∈ cs, P (pauseRecord c)) : Hands P (recordPauses only cs) s h := by
  induction cs generalizing s h with
  | nil => exact trivial
  | cons c cs ih =>
    have rest : ∀ s h, Hands P (recordPauses only cs) s h := fun s h =>
      ih fun c mem => holds c (List.mem_cons_of_mem _ mem)
    refine meets_bind.mpr (meets_get.mpr ?_)
    split
    · exact rest s h
    · refine hands_bind (hands_write (holds c List.mem_cons_self)) fun _ s h => ?_
      exact hands_bind (rest s h) fun _ _ _ => trivial

theorem queueEvent_writes : Hands (ControlOp.MayWrite s (.queueEvent ev)) (queueEvent ev) s h := by
  refine hands_refuse fun _ checked => meets_bind.mpr (meets_get.mpr ?_)
  cases found : s.event ev.app ev.deliveryId with
  | some old =>
    dsimp only
    split <;> exact trivial
  | none => exact hands_bind (hands_write (.queued checked found)) fun _ _ _ => trivial

theorem ingest_writes : Hands (ControlOp.MayWrite s (.ingest deployments ev)) (ingest deployments ev) s h := by
  refine hands_refuse fun _ checked => meets_bind.mpr (meets_get.mpr ?_)
  cases found : s.event ev.app ev.deliveryId with
  | some old =>
    dsimp only
    split <;> exact trivial
  | none =>
    dsimp only
    split
    · refine hands_bind (hands_recordPauses fun _ mem => .paused mem) fun _ s h => ?_
      exact hands_bind (hands_write (.ingested checked found)) fun _ _ _ => trivial
    · exact trivial

theorem recordExec_writes {exec : ExecRec} :
    Hands (ControlOp.MayWrite s (.recordExec exec)) (recordExec exec) s h := by
  refine meets_bind.mpr (meets_get.mpr (hands_refuse fun s' applies => ?_))
  exact hands_bind (hands_control (.executed applies)) fun _ _ _ => trivial

theorem resumeDismiss_writes : Hands (ControlOp.MayWrite s (.resume deployments app .dismiss nowMs))
    (resumeDismiss deployments app nowMs) s h := by
  refine meets_bind.mpr (meets_get.mpr ?_)
  split
  · exact trivial
  · refine hands_bind (hands_recordPauses fun _ mem => .paused mem) fun _ s h => ?_
    exact hands_bind (hands_write .dismissed) fun _ _ _ => trivial

theorem resumeSelect_writes (kind : choice ≠ .dismiss) :
    Hands (ControlOp.MayWrite s (.resume deployments app choice nowMs)) (resumeSelect app choice nowMs) s h := by
  refine hands_refuse fun _ checked => meets_bind.mpr (meets_get.mpr ?_)
  cases pending : s.pendingSelection app with
  | some p =>
    dsimp only
    split <;> exact trivial
  | none =>
    dsimp only
    split
    · exact trivial
    · refine hands_refuse fun chosen chose => ?_
      exact hands_bind (hands_write (.selected kind checked pending chose)) fun _ _ _ => trivial

/-- A call hands over only the records that it may write. -/
theorem op_writes : Hands (op.MayWrite s) op.run s h := by
  cases op with
  | queueEvent ev => exact meets_map.mpr queueEvent_writes
  | ingest deployments ev => exact meets_map.mpr ingest_writes
  | recordExec x => exact hands_bind recordExec_writes fun _ _ _ => trivial
  | resume deployments app choice nowMs =>
    refine meets_map.mpr ?_
    cases choice with
    | dismiss => exact resumeDismiss_writes
    | newest => exact resumeSelect_writes fun kind => by cases kind
    | revision r => exact resumeSelect_writes fun kind => by cases kind
  | syncPauses deployments => exact meets_map.mpr (hands_recordPauses fun _ mem => .paused mem)

/-- Wherever a call was cut short, it may write what it wrote. -/
theorem ControlOp.mayWrite {q : Program ControlSig (Except ControlError Outcome × ControlState)}
    (follows : Program.Follows (op.run.toProgram s) h q) : ∀ w ∈ h, op.MayWrite s w.op := by
  have lawful := (Program.Obeys.follows (op_writes (h := [])) follows).2
  intro w mem
  obtain ⟨before, rest, split⟩ := List.append_of_mem mem
  exact lawful_iff.mp lawful before w rest split

end

end Harpoon.Control
