import Harpoon.Git.Commands
import Harpoon.Laws.Newest
import Harpoon.Laws.Writes

/-!
# One deployment for each delivery

The executor chooses an event, deploys it, and records that it did, at three different moments. Between
them other processes queue events and decide what becomes of the held ones. `Run` is every run of such
processes on one application, with one executor: any call of a control operation, cut short anywhere,
between any two moments of a pass, except while the executor holds the journal for writing.

Two things make the executor deploy a delivery again: a decision that selects the delivery of the pass
under way, and a pass that deployed and did not get its record stored. Without them no delivery is deployed
twice.
-/

namespace Harpoon.Git

open Deploy Control Interact Process

/-! ## A pass -/

/-- How far a pass of the executor has come. -/
inductive Pass where
  | idle
  | chose (e : Control.Event) (superseded : List String)
  | ran (e : Control.Event) (superseded : List String) (result : Except String Ran)
  | writing (e : Control.Event) (superseded : List String) (result : Except String Ran) (restored : ControlState)
  | finished

namespace Pass

/-- What the executor chose, if anything. -/
def choice : Option (Control.Event × List String) → Pass
  | some (e, superseded) => .chose e superseded
  | none => .finished

def see (app : ApplicationId) : Pass → Interact.Event DrainSig → Pass
  | .idle, ⟨.state, .ok (deployments, ctl)⟩ => choice (nextExecution deployments ctl app).execution
  | .chose e superseded, ⟨.runSource _, result⟩ => .ran e superseded result
  | .ran e superseded result, ⟨.openWriter, .ok restored⟩ => .writing e superseded result restored
  | .writing e superseded result restored, ⟨.now, _⟩ => .writing e superseded result restored
  | _, _ => .finished

/-- What a pass asks, by how far it has come. The record it writes is one that the state accepts. -/
def Asks (app : ApplicationId) : Pass → DrainOp → Prop
  | .idle, op => op = .state
  | .chose e _, op => op = .runSource e.record
  | .ran _ _ _, op => op = .openWriter
  | .writing e superseded result restored, op => op = .now ∨ ∃ atMs s',
      op = .control (.exec (execution app e superseded result atMs)) ∧
        restored.apply (.exec (execution app e superseded result atMs)) = .ok s'
  | .finished, _ => False

/-- The journal is held for writing. -/
def Holds : Pass → Prop
  | .writing _ _ _ _ => True
  | .idle | .chose _ _ | .ran _ _ _ | .finished => False

/-- How far a pass has come when it ends by itself. -/
def Ends (app : ApplicationId) : Pass → Prop
  | .idle | .chose _ _ | .ran _ _ _ => False
  | .writing e superseded result restored =>
    ∃ atMs why, restored.apply (.exec (execution app e superseded result atMs)) = .error why
  | .finished => True

end Pass

section

variable {app : ApplicationId} {out : List String}

/-- What a pass hands to the journal is its record, when the state accepts it. -/
theorem recordExec_asks {e : Control.Event} {superseded : List String} {result : Except String Ran}
    {restored : ControlState} {atMs : Nat} :
    Meets (fun pass w => Pass.see app pass ⟨.control w.op, w.answer⟩) (fun pass r => Pass.Asks app pass (.control r))
      (recordExec (execution app e superseded result atMs)) (fun _ _ pass => pass = .finished)
      (fun _ _ pass => pass.Ends app) restored (.writing e superseded result restored) := by
  refine meets_bind.mpr (meets_get.mpr (meets_bind.mpr (meets_ofExcept (fun s' applies => ?_) fun why no => ?_)))
  · refine meets_bind.mpr (meets_bind.mpr (meets_perform.mpr ⟨.inr ⟨atMs, s', rfl, applies⟩, fun answer => ?_⟩))
    cases answer with
    | acknowledged => exact rfl
    | failed e stored => exact trivial
  · exact ⟨atMs, why, no⟩

/-- The pass asks what its progress says, and ends where it says. -/
theorem drainApp_asks : Meets (Pass.see app) (Pass.Asks app) (drainApp app) (fun _ _ pass => pass.Ends app)
    (fun _ _ pass => pass.Ends app) out .idle := by
  refine meets_bind.mpr (meets_perform.mpr ⟨rfl, fun answer => ?_⟩)
  cases answer with
  | error f => exact trivial
  | ok read =>
    obtain ⟨deployments, ctl⟩ := read
    refine meets_bind.mpr (meets_ofExcept (fun _ same => ?_) fun _ other => by cases other)
    cases same
    dsimp only [Pass.see]
    cases (nextExecution deployments ctl app).execution with
    | none => exact trivial
    | some next =>
      obtain ⟨e, superseded⟩ := next
      refine meets_bind.mpr (meets_modify.mpr (meets_bind.mpr (meets_perform.mpr ⟨rfl, fun result => ?_⟩)))
      refine meets_bind.mpr (meets_perform.mpr ⟨rfl, fun opened => ?_⟩)
      cases opened with
      | error f => exact trivial
      | ok restored =>
        refine meets_bind.mpr (meets_ofExcept (fun _ same => ?_) fun _ other => by cases other)
        cases same
        refine meets_bind.mpr (meets_perform.mpr ⟨.inl rfl, fun atMs => ?_⟩)
        refine meets_bind.mpr (meets_embed.mpr ?_)
        refine Meets.mono (Meets.via ?_ recordExec_asks) ?_ fun _ _ _ ends => ends
        · exact fun r pass allowed => ⟨allowed, fun _ => rfl⟩
        · rintro _ _ _ rfl
          exact trivial

end

/-! ## One executor among other writers -/

structure World where
  /-- What the journal holds. -/
  disk : ControlState
  /-- The deliveries whose deployment the executor started. -/
  started : List String
  /-- What the pass under way asked, and was answered. -/
  asked : History DrainSig

def World.pass (app : ApplicationId) (w : World) : Pass := w.asked.seen (Pass.see app) .idle

/-- The delivery whose deployment was started, unless the answer says that nothing was deployed. -/
def starts : Interact.Event DrainSig → List String
  | ⟨.runSource e, .ok _⟩ => [e.delivery]
  | _ => []

/-- What is read is what the journal holds. -/
def Truthful (disk : ControlState) : Interact.Event DrainSig → Prop
  | ⟨.state, .ok (_, ctl)⟩ => ctl = disk
  | ⟨.openWriter, .ok restored⟩ => restored = disk
  | _ => True

/-- What the journal holds after the executor asked. -/
def kept (disk : ControlState) : Interact.Event DrainSig → ControlState
  | ⟨.control r, answer⟩ => store disk ⟨r, answer⟩
  | _ => disk

inductive Moment where
  | drain (e : Interact.Event DrainSig)
  /-- The pass came to its end. -/
  | ended
  /-- The process died. -/
  | killed
  /-- A call by another process, and what it wrote. -/
  | other (op : ControlOp) (h : Writes)

/-- The call records an execution for the application. -/
def executes (app : ApplicationId) : ControlOp → Bool
  | .recordExec x => x.app = app
  | .queueEvent _ | .ingest _ _ | .resume _ _ _ _ | .syncPauses _ => false

inductive Step (app : ApplicationId) : World → Moment → World → Prop where
  | drain {w : World} {e : Interact.Event DrainSig} {out : List String}
      {q : Program DrainSig (Except Fail Bool × List String)}
      (follows : Program.Follows ((drainApp app).toProgram out) (w.asked ++ [e]) q) (truthful : Truthful w.disk e) :
      Step app w (.drain e) ⟨kept w.disk e, w.started ++ starts e, w.asked ++ [e]⟩
  | ended {w : World} {out : List String} {value : Except Fail Bool × List String}
      (follows : Program.Follows ((drainApp app).toProgram out) w.asked (.done value)) :
      Step app w .ended { w with asked := [] }
  | killed {w : World} : Step app w .killed { w with asked := [] }
  | other {w : World} {op : ControlOp} {h : Writes}
      {q : Program ControlSig (Except ControlError Outcome × ControlState)} (free : ¬ (w.pass app).Holds)
      (foreign : executes app op = false) (follows : Program.Follows (op.run.toProgram w.disk) h q) :
      Step app w (.other op h) { w with disk := onDisk w.disk h }

/-- The worlds that a run reaches, from any state of the journal, when every step meets `ok`. -/
inductive Run (app : ApplicationId) (ok : World → Moment → Prop) : World → Prop where
  | new {s : ControlState} (reachable : Reachable s) : Run app ok ⟨s, [], []⟩
  | step {w w' : World} {m : Moment} (before : Run app ok w) (meets : ok w m) (step : Step app w m w') :
      Run app ok w'

/-! ## The condition -/

/-- The deployment of this delivery was started, and its pass is under way. -/
def Pass.Deployed (d : String) : Pass → Prop
  | .ran e _ (.ok _) | .writing e _ (.ok _) _ => e.record.delivery = d
  | _ => False

/-- A decision that selects this delivery now would be one too many: it is deployed, or its pass will not be
able to record it. -/
def Pass.Committed (d : String) : Pass → Prop
  | .chose e superseded => e.record.delivery = d ∧ superseded ≠ []
  | .ran e _ (.ok _) => e.record.delivery = d
  | _ => False

/-- The delivery of the pass under way is deployed, and still waits. -/
def World.Unsettled (app : ApplicationId) (w : World) : Prop :=
  ∃ d e, (w.pass app).Deployed d ∧ w.disk.event app d = some e ∧ e.status.isWaiting = true

/-- A pass that deployed stores its record, unless its delivery was settled meanwhile; and no decision selects
the delivery of the pass under way. -/
def Careful (app : ApplicationId) (w : World) : Moment → Prop
  | .drain ⟨.openWriter, .error _⟩ | .killed => ¬ w.Unsettled app
  | .drain ⟨.control _, answer⟩ => answer.isStored = false → ¬ w.Unsettled app
  | .other (.resume _ a choice _) _ => a = app → choice ≠ .dismiss → w.disk.pendingSelection app = none →
    ∀ chosen, choose app choice (w.disk.held app) = .ok chosen → ¬ (w.pass app).Committed chosen.record.delivery
  | _ => True

/-! ## What a choice is worth -/

/-- Nothing can choose the event again. -/
def Settled (app : ApplicationId) (s : ControlState) (d : String) : Prop :=
  ∃ e, s.event app d = some e ∧ e.status.isWaiting = false

/-- The event is the one that was chosen; and while it waits, either nothing is to be superseded by it, or it
is held and so is what it supersedes. -/
def Stands (app : ApplicationId) (s : ControlState) (e : Control.Event) (superseded : List String) : Prop :=
  ∃ e', s.event app e.record.delivery = some e' ∧ e'.record = e.record ∧
    (e'.status.isWaiting = true → superseded = [] ∨ e'.status = .held ∧ ∀ d ∈ superseded, ∃ older,
      s.event app d = some older ∧ d ≠ e.record.delivery ∧ older.status = .held ∧
        older.record.receivedMs ≤ e.record.receivedMs)

section

variable {app : ApplicationId} {s s' : ControlState} {e : Control.Event} {superseded : List String}
  {deployments : List Deployment} {r : ControlRecord} {result : Except String Ran} {atMs : Nat} {op : ControlOp}
  {h : Writes} {d : String}

theorem Settled.moved (settled : Settled app s d) (moved : s.Moved s') : Settled app s' d := by
  obtain ⟨e, found, settled⟩ := settled
  obtain ⟨e', found', _, may⟩ := moved _ _ found
  exact ⟨e', found', by rw [EventStatus.eq_of_mayBecome may settled]; exact settled⟩

theorem Settled.not_waiting (settled : Settled app s d) (found : s.event app d = some e) :
    e.status.isWaiting = false := by
  obtain ⟨e', found', settled⟩ := settled
  cases found.symm.trans found'
  exact settled

/-- What the executor chooses waits. -/
theorem waiting_of_next (next : (nextExecution deployments s app).execution = some (e, superseded)) :
    s.event app e.record.delivery = some e ∧ e.status.isWaiting = true := by
  cases which : nextExecution deployments s app with
  | selected chosen =>
    rw [which] at next
    cases next
    obtain ⟨found, selected⟩ := ControlState.pendingSelection_some (nextExecution_selected which)
    exact ⟨found, by rw [selected]; rfl⟩
  | newest chosen others =>
    rw [which] at next
    cases next
    have held := newestOf_mem (nextExecution_newest which).2.1
    exact ⟨ControlState.event_of_mem_held held, by rw [(ControlState.mem_held.mp held).2.2]; rfl⟩
  | nothing => rw [which] at next; cases next

theorem stands_of_next (next : (nextExecution deployments s app).execution = some (e, superseded)) :
    Stands app s e superseded := by
  refine ⟨e, (waiting_of_next next).1, rfl, fun _ => ?_⟩
  cases which : nextExecution deployments s app with
  | selected chosen =>
    rw [which] at next
    cases next
    exact .inl rfl
  | newest chosen others =>
    rw [which] at next
    cases next
    obtain ⟨_, newest, rfl⟩ := nextExecution_newest which
    refine .inr ⟨(ControlState.mem_held.mp (newestOf_mem newest)).2.2, fun d mem => ?_⟩
    obtain ⟨older, held, other, rfl⟩ := mem_others.mp mem
    exact ⟨older, ControlState.event_of_mem_held held, other, (ControlState.mem_held.mp held).2.2,
      newestOf_receivedMs newest held⟩
  | nothing => rw [which] at next; cases next

/-- Step lemma: a record of another writer, that does not select the chosen event. -/
theorem Stands.apply (stands : Stands app s e superseded) (applied : s.apply r = .ok s')
    (unexecuted : ∀ x, r = .exec x → x.app ≠ app)
    (unselected : ∀ y, r = .resume y → y.app = app → superseded ≠ [] → y.selected ≠ some e.record.delivery) :
    Stands app s' e superseded := by
  obtain ⟨e', found, same, waits⟩ := stands
  by_cases decides : ControlState.Decides app r
  · obtain ⟨e'', found', record, may⟩ := ControlState.apply_moved applied _ _ found
    refine ⟨e'', found', record.trans same, fun waiting => ?_⟩
    cases r with
    | pause p | event r => exact decides.elim
    | exec x => exact absurd decides (unexecuted x rfl)
    | resume y =>
      rcases Decidable.em (superseded = []) with none | some
      · exact .inl none
      · -- A held event that still waits was selected by the decision.
        have before : e'.status.isWaiting = true := by
          cases was : e'.status.isWaiting with
          | true => rfl
          | false => rw [EventStatus.eq_of_mayBecome may was, was] at waiting; cases waiting
        rcases waits before with none | ⟨held, _⟩
        · exact .inl none
        · have here : y.app = app := decides
          subst here
          have delivery : e'.record.delivery = e.record.delivery := by rw [same]
          have picked := ControlState.selected_of_held applied (ControlState.mem_held_of_event found held)
            (delivery ▸ found') waiting
          exact absurd (delivery ▸ picked) (unselected y rfl rfl some)
  · refine ⟨e', ControlState.event_of_apply applied decides found, same, fun waiting => ?_⟩
    rcases waits waiting with none | ⟨held, behind⟩
    · exact .inl none
    · refine .inr ⟨held, fun d mem => ?_⟩
      obtain ⟨older, found, rest⟩ := behind d mem
      exact ⟨older, ControlState.event_of_apply applied decides found, rest⟩

/-- What a call of another process leaves of a choice. -/
theorem Stands.other {q : Program ControlSig (Except ControlError Outcome × ControlState)}
    (stands : Stands app s e superseded) (foreign : executes app op = false)
    (unselected : superseded ≠ [] → ∀ deployments choice nowMs chosen, op = .resume deployments app choice nowMs →
      choice ≠ .dismiss → s.pendingSelection app = none → choose app choice (s.held app) = .ok chosen →
      chosen.record.delivery ≠ e.record.delivery)
    (follows : Program.Follows (op.run.toProgram s) h q) : Stands app (onDisk s h) e superseded := by
  refine onDisk_invariant (I := fun t => Stands app t e superseded)
    (fun w mem t t' stands applied => stands.apply applied ?_ ?_) stands
  · intro x isExec here
    rw [(ControlOp.mayWrite follows w mem).exec isExec] at foreign
    exact absurd here (of_decide_eq_false foreign)
  · intro y isResume here some picked
    obtain ⟨deployments, choice, nowMs, chosen, isOp, kind, free, chose, same⟩ :=
      (ControlOp.mayWrite follows w mem).selection isResume picked
    rw [here] at isOp free chose
    exact unselected some deployments choice nowMs chosen isOp kind free chose same

theorem agrees_execution : ControlState.outcomeAgrees (execution app e superseded result atMs) = true := by
  match result with
  | .ok ⟨some _, _⟩ | .ok ⟨none, _⟩ | .error _ => rfl

/-- The execution of a choice that stands is accepted, or the event was settled. -/
theorem Stands.settled {why : String} (stands : Stands app s e superseded)
    (refused : s.apply (.exec (execution app e superseded result atMs)) = .error why) :
    Settled app s e.record.delivery := by
  obtain ⟨e', found, same, waits⟩ := stands
  refine ⟨e', found, ?_⟩
  cases waiting : e'.status.isWaiting with
  | false => rfl
  | true =>
    have allowed : s.ExecAllowed (execution app e superseded result atMs) e' := by
      refine ⟨found, waiting, agrees_execution, fun d mem => ?_⟩
      rcases waits waiting with none | ⟨_, behind⟩
      · have named : d ∈ superseded := mem
        rw [none] at named
        cases named
      · obtain ⟨older, rest⟩ := behind d mem
        exact ⟨older, same ▸ rest⟩
    have accepted : s.apply (.exec (execution app e superseded result atMs)) = .ok _ :=
      ControlState.applyExec_ok.mpr ⟨⟨e', allowed⟩, rfl⟩
    cases refused.symm.trans accepted

/-- Once its execution is recorded, an event is settled. -/
theorem settled_of_exec (applied : s.apply (.exec (execution app e superseded result atMs)) = .ok s') :
    Settled app s' e.record.delivery := by
  obtain ⟨⟨chosen, allowed⟩, rfl⟩ := ControlState.applyExec_ok.mp applied
  refine ⟨_, (ControlState.find_settleExec allowed).trans (if_pos rfl), ?_⟩
  cases outcome : (execution app e superseded result atMs).outcome <;>
    simp [Event.settleBy, Event.settle, ControlState.execStatus, EventStatus.isWaiting]

end

/-! ## The invariant -/

/-- What a pass under way knows of the journal. -/
def Pass.Sound (app : ApplicationId) (w : World) : Pass → Prop
  | .chose e superseded => e.record.delivery ∉ w.started ∧ Stands app w.disk e superseded
  | .ran e superseded (.ok _) => Stands app w.disk e superseded
  | .writing e superseded (.ok _) restored => restored = w.disk ∧ Stands app w.disk e superseded
  | .ran _ _ (.error _) | .writing _ _ (.error _) _ | .idle | .finished => True

/-- A delivery that was deployed is settled, except while its pass is under way. -/
structure World.Sound (app : ApplicationId) (w : World) : Prop where
  once : w.started.Nodup
  settled : ∀ d ∈ w.started, (w.pass app).Deployed d ∨ Settled app w.disk d
  pass : (w.pass app).Sound app w

section

variable {app : ApplicationId} {w w' : World} {e : Interact.Event DrainSig} {out : List String}
  {q : Program DrainSig (Except Fail Bool × List String)} {m : Moment} {d : String}

theorem pass_concat (app : ApplicationId) (w : World) (e : Interact.Event DrainSig) (disk : ControlState)
    (started : List String) :
    (World.mk disk started (w.asked ++ [e])).pass app = (w.pass app).see app e :=
  List.foldl_append

/-- The next thing a pass asks. -/
theorem asks_of_follows (follows : Program.Follows ((drainApp app).toProgram out) (w.asked ++ [e]) q) :
    (w.pass app).Asks app e.op :=
  (Program.Obeys.follows drainApp_asks follows).2.at

/-- Where a pass ends. -/
theorem ends_of_follows {value : Except Fail Bool × List String}
    (follows : Program.Follows ((drainApp app).toProgram out) w.asked (.done value)) : (w.pass app).Ends app := by
  have ends := Program.Obeys.ended drainApp_asks follows
  obtain ⟨⟨_⟩ | ⟨_⟩, _⟩ := value <;> exact ends

/-- The delivery of a pass that deployed is in the journal. -/
theorem World.Sound.recorded (sound : w.Sound app) (deployed : (w.pass app).Deployed d) :
    ∃ e, w.disk.event app d = some e := by
  have known := sound.pass
  revert deployed known
  match w.pass app with
  | .ran e superseded (.ok _) =>
    rintro rfl ⟨e', found, _⟩
    exact ⟨e', found⟩
  | .writing e superseded (.ok _) restored =>
    rintro rfl ⟨_, e', found, _⟩
    exact ⟨e', found⟩
  | .ran _ _ (.error _) | .writing _ _ (.error _) _ | .idle | .finished | .chose _ _ => exact fun no => no.elim

/-- What was deployed is settled, when the pass under way is not in the way. -/
theorem World.Sound.all_settled (sound : w.Sound app) (careful : ¬ w.Unsettled app) :
    ∀ d ∈ w.started, Settled app w.disk d := by
  intro d mem
  rcases sound.settled d mem with deployed | settled
  · obtain ⟨e, found⟩ := sound.recorded deployed
    cases waiting : e.status.isWaiting with
    | false => exact ⟨e, found, waiting⟩
    | true => exact absurd ⟨d, e, deployed, found, waiting⟩ careful
  · exact settled

/-- A world without a pass under way. -/
theorem sound_of_settled (once : w.started.Nodup) (settled : ∀ d ∈ w.started, Settled app w.disk d)
    (rests : w.pass app = .idle ∨ w.pass app = .finished) : w.Sound app where
  once := once
  settled d mem := .inr (settled d mem)
  pass := by rcases rests with rests | rests <;> (rw [rests]; exact trivial)

/-- The executor reads the state and chooses. -/
theorem World.Sound.reads {answer : Except Fail (List Deployment × ControlState)} (sound : w.Sound app)
    (idle : w.pass app = .idle) (truthful : Truthful w.disk ⟨.state, answer⟩) :
    World.Sound app ⟨w.disk, w.started, w.asked ++ [⟨.state, answer⟩]⟩ := by
  have stage := pass_concat app w ⟨.state, answer⟩ w.disk w.started
  have settled : ∀ d ∈ w.started, Settled app w.disk d := fun d mem => by
    have known := sound.settled d mem
    rw [idle] at known
    exact known.resolve_left fun no => no
  rw [idle] at stage
  cases answer with
  | error f => exact sound_of_settled sound.once settled (.inr stage)
  | ok read =>
    obtain ⟨deployments, ctl⟩ := read
    have same : ctl = w.disk := truthful
    subst same
    have chose : _ = Pass.choice (nextExecution deployments w.disk app).execution := stage
    cases next : (nextExecution deployments w.disk app).execution with
    | none => exact sound_of_settled sound.once settled (.inr (by rw [chose, next]; rfl))
    | some choice =>
      obtain ⟨e, superseded⟩ := choice
      refine ⟨sound.once, fun d mem => .inr (settled d mem), ?_⟩
      rw [chose, next]
      refine ⟨fun mem => ?_, stands_of_next next⟩
      obtain ⟨found, waiting⟩ := waiting_of_next next
      cases waiting.symm.trans ((settled _ mem).not_waiting found)

/-- The executor deploys what it chose. -/
theorem World.Sound.deploys {e : Control.Event} {superseded : List String} {answer : Except String Ran}
    (sound : w.Sound app) (chose : w.pass app = .chose e superseded) :
    World.Sound app ⟨w.disk, w.started ++ starts ⟨.runSource e.record, answer⟩,
      w.asked ++ [⟨.runSource e.record, answer⟩]⟩ := by
  have stage := pass_concat app w ⟨.runSource e.record, answer⟩ w.disk
    (w.started ++ starts ⟨.runSource e.record, answer⟩)
  have known := sound.pass
  have settled : ∀ d ∈ w.started, Settled app w.disk d := fun d mem => by
    have known := sound.settled d mem
    rw [chose] at known
    exact known.resolve_left fun no => no
  rw [chose] at stage known
  obtain ⟨fresh, stands⟩ := known
  cases answer with
  | error why =>
    have none : w.started ++ starts ⟨.runSource e.record, .error why⟩ = w.started := List.append_nil _
    rw [none] at stage ⊢
    refine ⟨sound.once, fun d mem => .inr (settled d mem), ?_⟩
    rw [stage]
    exact trivial
  | ok ran =>
    refine ⟨List.nodup_append.mpr ⟨sound.once, List.pairwise_singleton _ _, ?_⟩, fun d mem => ?_, ?_⟩
    · intro d old d' new same
      rw [same, List.mem_singleton.mp new] at old
      exact fresh old
    · rcases List.mem_append.mp mem with old | new
      · exact .inr (settled d old)
      · rw [stage]
        exact .inl (List.mem_singleton.mp new).symm
    · rw [stage]
      exact stands

/-- The executor opens the journal. -/
theorem World.Sound.opens {e : Control.Event} {superseded : List String} {result : Except String Ran}
    {answer : Except Fail ControlState} (sound : w.Sound app) (ran : w.pass app = .ran e superseded result)
    (truthful : Truthful w.disk ⟨.openWriter, answer⟩) (careful : Careful app w (.drain ⟨.openWriter, answer⟩)) :
    World.Sound app ⟨w.disk, w.started, w.asked ++ [⟨.openWriter, answer⟩]⟩ := by
  have stage := pass_concat app w ⟨.openWriter, answer⟩ w.disk w.started
  have known := sound.pass
  rw [ran] at stage known
  cases answer with
  | error f => exact sound_of_settled sound.once (sound.all_settled careful) (.inr stage)
  | ok restored =>
    refine ⟨sound.once, fun d mem => ?_, ?_⟩
    · have before := sound.settled d mem
      rw [ran] at before
      rw [stage]
      cases result with
      | error why => exact before
      | ok r => exact before
    · rw [stage]
      cases result with
      | error why => exact trivial
      | ok r => exact ⟨truthful, known⟩

/-- The executor asks for the time. -/
theorem World.Sound.waits {e : Control.Event} {superseded : List String} {result : Except String Ran}
    {restored : ControlState} {answer : Nat} (sound : w.Sound app)
    (writing : w.pass app = .writing e superseded result restored) :
    World.Sound app ⟨w.disk, w.started, w.asked ++ [⟨.now, answer⟩]⟩ := by
  have stage : (World.mk w.disk w.started (w.asked ++ [⟨.now, answer⟩])).pass app = w.pass app := by
    rw [pass_concat, writing]
    rfl
  exact ⟨sound.once, fun d mem => by rw [stage]; exact sound.settled d mem, by rw [stage]; exact sound.pass⟩

/-- The executor hands over its record. -/
theorem World.Sound.records {e : Control.Event} {superseded : List String} {result : Except String Ran}
    {restored s' : ControlState} {atMs : Nat} {answer : Written} (sound : w.Sound app)
    (writing : w.pass app = .writing e superseded result restored)
    (applies : restored.apply (.exec (execution app e superseded result atMs)) = .ok s')
    (careful : answer.isStored = false → ¬ w.Unsettled app) :
    World.Sound app ⟨store w.disk ⟨.exec (execution app e superseded result atMs), answer⟩, w.started,
      w.asked ++ [⟨.control (.exec (execution app e superseded result atMs)), answer⟩]⟩ := by
  have stage := pass_concat app w ⟨.control (.exec (execution app e superseded result atMs)), answer⟩
    (store w.disk ⟨.exec (execution app e superseded result atMs), answer⟩) w.started
  have moved : w.disk.Moved (store w.disk ⟨.exec (execution app e superseded result atMs), answer⟩) :=
    onDisk_moved (h := [⟨.exec (execution app e superseded result atMs), answer⟩])
  rw [writing] at stage
  refine sound_of_settled sound.once (fun d mem => ?_) (.inr stage)
  cases taken : answer.isStored with
  | false => exact (sound.all_settled (careful taken) d mem).moved moved
  | true =>
    rcases sound.settled d mem with deployed | settled
    · have known := sound.pass
      rw [writing] at deployed known
      cases result with
      | error why => exact deployed.elim
      | ok r =>
        obtain ⟨same, _⟩ := known
        have stored : store w.disk ⟨.exec (execution app e superseded (.ok r) atMs), answer⟩ = s' := by
          rw [store, if_pos taken, applied, ← same, applies]
        have delivery : e.record.delivery = d := deployed
        rw [stored, ← delivery]
        exact settled_of_exec applies
    · exact settled.moved moved

/-- A pass that ended by itself left its delivery settled. -/
theorem World.Sound.ends (sound : w.Sound app) (ends : (w.pass app).Ends app) :
    ∀ d ∈ w.started, Settled app w.disk d := by
  intro d mem
  rcases sound.settled d mem with deployed | settled
  · have known := sound.pass
    cases pass : w.pass app with
    | idle | chose e superseded | ran e superseded result => rw [pass] at ends; exact ends.elim
    | finished => rw [pass] at deployed; exact deployed.elim
    | writing e superseded result restored =>
      rw [pass] at ends deployed known
      obtain ⟨atMs, why, refused⟩ := ends
      cases result with
      | error why => exact deployed.elim
      | ok r =>
        obtain ⟨rfl, stands⟩ := known
        have delivery : e.record.delivery = d := deployed
        exact delivery ▸ stands.settled refused
  · exact settled

/-- Another process writes. -/
theorem World.Sound.other {op : ControlOp} {h : Writes}
    {q : Program ControlSig (Except ControlError Outcome × ControlState)} (sound : w.Sound app)
    (careful : Careful app w (.other op h)) (free : ¬ (w.pass app).Holds) (foreign : executes app op = false)
    (follows : Program.Follows (op.run.toProgram w.disk) h q) :
    World.Sound app { w with disk := onDisk w.disk h } := by
  have stays : ∀ {e : Control.Event} {superseded : List String}, Stands app w.disk e superseded →
      (superseded ≠ [] → (w.pass app).Committed e.record.delivery) → Stands app (onDisk w.disk h) e superseded := by
    intro e superseded stands committed
    refine stands.other foreign (fun some deployments choice nowMs chosen isOp kind pending chose same => ?_) follows
    subst isOp
    exact careful rfl kind pending chosen chose (same ▸ committed some)
  refine ⟨sound.once, fun d mem => (sound.settled d mem).imp id fun settled => settled.moved onDisk_moved, ?_⟩
  have known := sound.pass
  show (w.pass app).Sound app { w with disk := onDisk w.disk h }
  cases pass : w.pass app with
  | idle | finished => exact trivial
  | chose e superseded =>
    rw [pass] at known stays
    exact ⟨known.1, stays known.2 fun some => ⟨rfl, some⟩⟩
  | ran e superseded result =>
    rw [pass] at known stays
    cases result with
    | error why => exact trivial
    | ok r => exact stays known fun _ => rfl
  | writing e superseded result restored => exact absurd (pass ▸ trivial) free

/-- Step lemma. -/
theorem World.Sound.next (sound : w.Sound app) (careful : Careful app w m) (step : Step app w m w') :
    w'.Sound app := by
  cases step with
  | @drain e out q follows truthful =>
    have asks := asks_of_follows follows
    obtain ⟨op, answer⟩ := e
    cases pass : w.pass app with
    | idle =>
      rw [pass] at asks
      cases asks
      have none : w.started ++ starts ⟨.state, answer⟩ = w.started := List.append_nil _
      rw [none]
      exact sound.reads pass truthful
    | chose e superseded =>
      rw [pass] at asks
      cases asks
      exact sound.deploys pass
    | ran e superseded result =>
      rw [pass] at asks
      cases asks
      have none : w.started ++ starts ⟨.openWriter, answer⟩ = w.started := List.append_nil _
      rw [none]
      exact sound.opens pass truthful careful
    | writing e superseded result restored =>
      rw [pass] at asks
      rcases asks with rfl | ⟨atMs, s', rfl, applies⟩
      · have none : w.started ++ starts ⟨.now, answer⟩ = w.started := List.append_nil _
        rw [none]
        exact sound.waits pass
      · have none : w.started ++ starts ⟨.control (.exec (execution app e superseded result atMs)), answer⟩ =
          w.started := List.append_nil _
        rw [none]
        exact sound.records pass applies careful
    | finished => rw [pass] at asks; exact asks.elim
  | ended follows => exact sound_of_settled sound.once (sound.ends (ends_of_follows follows)) (.inl rfl)
  | killed => exact sound_of_settled sound.once (sound.all_settled careful) (.inl rfl)
  | other free foreign follows => exact sound.other careful free foreign follows

/-- Run lemma. -/
theorem Run.sound (run : Run app (Careful app) w) : w.Sound app := by
  induction run with
  | new _ => exact sound_of_settled List.Pairwise.nil (fun _ mem => by cases mem) (.inl rfl)
  | step _ careful step ih => exact ih.next careful step

/-- No delivery is deployed twice. -/
structure DeployedOnce (app : ApplicationId) (w : World) : Prop where
  once : w.started.Nodup
  /-- What the executor is about to deploy was not deployed. -/
  fresh : ∀ e answer w', Step app w (.drain ⟨.runSource e, answer⟩) w' → e.delivery ∉ w.started
  /-- Between two passes, nothing that was deployed is what the executor does next. -/
  next : w.asked = [] → ∀ deployments e superseded,
    (nextExecution deployments w.disk app).execution = some (e, superseded) → e.record.delivery ∉ w.started
  /-- No decision that meets the condition selects what was deployed. -/
  resume : ∀ deployments choice nowMs h, Careful app w (.other (.resume deployments app choice nowMs) h) →
    choice ≠ .dismiss → w.disk.pendingSelection app = none → ¬ (w.pass app).Holds →
    ∀ chosen, choose app choice (w.disk.held app) = .ok chosen → chosen.record.delivery ∉ w.started

theorem deployed_at_most_once (run : Run app (Careful app) w) : DeployedOnce app w where
  once := run.sound.once
  fresh e answer w' step mem := by
    cases step with
    | drain follows _ =>
      have asks := asks_of_follows follows
      have known := run.sound.pass
      cases pass : w.pass app with
      | chose e' superseded =>
        rw [pass] at asks known
        cases asks
        exact known.1 mem
      | idle | finished | ran e' superseded result => rw [pass] at asks; cases asks
      | writing e' superseded result restored => rw [pass] at asks; rcases asks with asks | ⟨_, _, asks, _⟩ <;> cases asks
  next idle deployments e superseded next mem := by
    obtain ⟨found, waiting⟩ := waiting_of_next next
    have rests : w.pass app = .idle := by rw [World.pass, idle]; rfl
    have settled := run.sound.settled _ mem
    rw [rests] at settled
    rcases settled with deployed | settled
    · exact deployed
    · cases waiting.symm.trans (settled.not_waiting found)
  resume deployments choice nowMs h careful kind free unheld chosen chose mem := by
    have held := choose_mem chose
    rcases run.sound.settled _ mem with deployed | settled
    · refine careful rfl kind free chosen chose ?_
      revert deployed unheld
      match w.pass app with
      | .ran e superseded (.ok r) => exact fun _ deployed => deployed
      | .writing e superseded (.ok r) restored => exact fun unheld _ => unheld trivial
      | .idle | .finished | .chose _ _ | .ran _ _ (.error _) | .writing _ _ (.error _) _ => exact fun _ no => no.elim
    · have waiting := settled.not_waiting (ControlState.event_of_mem_held held)
      rw [(ControlState.mem_held.mp held).2.2] at waiting
      cases waiting

end

/-! ### A decision during a pass -/

namespace Racing

variable {ok : World → Moment → Prop} {w : World} {h : History DrainSig}
  {q : Program DrainSig (Except Fail Bool × List String)}

/-- A part of a pass that leaves the journal as it is. -/
theorem drains (run : Run Queued.app ok w)
    (follows : Program.Follows ((drainApp Queued.app).toProgram []) (w.asked ++ h) q)
    (reads : ∀ e ∈ h, Truthful w.disk e ∧ kept w.disk e = w.disk) (meets : ∀ e ∈ h, ∀ w, ok w (.drain e)) :
    Run Queued.app ok ⟨w.disk, w.started ++ h.flatMap starts, w.asked ++ h⟩ := by
  induction h generalizing w with
  | nil => simpa using run
  | cons e h ih =>
    obtain ⟨truthful, same⟩ := reads e List.mem_cons_self
    have split : w.asked ++ e :: h = (w.asked ++ [e]) ++ h := by rw [List.append_assoc]; rfl
    obtain ⟨r, first⟩ := follows.take (w.asked ++ [e]).length
    rw [split, List.take_left] at first
    have next := run.step (meets e List.mem_cons_self w) (.drain first truthful)
    rw [same] at next
    have rest := ih next (split ▸ follows) (fun e mem => reads e (List.mem_cons_of_mem _ mem))
      fun e mem => meets e (List.mem_cons_of_mem _ mem)
    rwa [List.append_assoc, List.append_assoc] at rest

/-- A developer resumes with the newest event. -/
def decision : ControlOp := .resume [] Queued.app .newest 10

def decided : ControlState := Queued.after Queued.waiting decision

def ran : Ran := ⟨some ⟨9#128⟩, 0⟩

def newest : EventRec := ⟨Queued.app, "d2", "github", "abc", 9⟩

def answers (reads restored : ControlState) : (op : DrainOp) → op.Answer
  | .state => .ok ([], reads)
  | .runSource _ => .ok ran
  | .openWriter => .ok restored
  | .now => (11 : Nat)
  | .control _ => Written.acknowledged

def pass (reads restored : ControlState) : History DrainSig × Except Fail Bool × List String :=
  ((drainApp Queued.app).toProgram []).play (S := DrainSig) (answers reads restored)

def asking (reads restored : ControlState) (ops : List DrainOp) : History DrainSig :=
  ops.map fun op => ⟨op, answers reads restored op⟩

theorem pass_follows (reads restored : ControlState) {ops : List DrainOp}
    (asked : (pass reads restored).1.map Interact.Event.op = ops) :
    Program.Follows ((drainApp Queued.app).toProgram []) (asking reads restored ops)
      (.done (pass reads restored).2) :=
  Program.play_asked asked

def record : ControlRecord := .exec (execution Queued.app (.hold newest) ["d1"] (.ok ran) 11)

/-- A pass that nothing disturbs. -/
theorem asked_undisturbed : (pass Queued.waiting Queued.waiting).1.map Interact.Event.op =
    [.state, .runSource newest, .openWriter, .now, .control record] := by decide

/-- A pass that finds its event selected. -/
theorem asked_disturbed : (pass Queued.waiting decided).1.map Interact.Event.op =
    [.state, .runSource newest, .openWriter, .now] := by decide

/-- The pass after it. -/
theorem asked_again : ((pass decided decided).1.take 2).map Interact.Event.op =
    [.state, .runSource newest] := by decide

/-- Nothing fails and no process dies. -/
def Faultless : World → Moment → Prop
  | _, .killed | _, .drain ⟨.openWriter, .error _⟩ => False
  | _, .drain ⟨.control _, answer⟩ => answer.isStored = true
  | _, _ => True

/-- The executor chooses and deploys. -/
theorem deploys (restored : ControlState) {s : ControlState} {started : List String}
    (asked : ((pass s restored).1.take 2).map Interact.Event.op = [.state, .runSource newest])
    (run : Run Queued.app ok ⟨s, started, []⟩) (meets : ∀ e w, Faultless w (.drain e) → ok w (.drain e)) :
    Run Queued.app ok ⟨s, started ++ ["d2"], asking s restored [.state, .runSource newest]⟩ := by
  obtain ⟨q, follows⟩ := (pass_follows s restored rfl).take 2
  rw [asking, ← List.map_take, ← List.map_take, asked] at follows
  refine drains run follows (fun e mem => ?_) fun e mem w => meets e w ?_
  · simp only [List.map_cons, List.map_nil, List.mem_cons, List.not_mem_nil, or_false] at mem
    rcases mem with rfl | rfl
    · exact ⟨rfl, rfl⟩
    · exact ⟨trivial, rfl⟩
  · simp only [List.map_cons, List.map_nil, List.mem_cons, List.not_mem_nil, or_false] at mem
    rcases mem with rfl | rfl <;> exact trivial

/-- The executor opens the journal to record what it deployed. -/
theorem opens {reads restored : ControlState} {started : List String} {more : List DrainOp}
    (asked : (pass reads restored).1.map Interact.Event.op = .state :: .runSource newest :: .openWriter :: .now :: more)
    (run : Run Queued.app ok ⟨restored, started, asking reads restored [.state, .runSource newest]⟩)
    (meets : ∀ e w, Faultless w (.drain e) → ok w (.drain e)) :
    Run Queued.app ok ⟨restored, started, asking reads restored [.state, .runSource newest, .openWriter, .now]⟩ := by
  obtain ⟨q, follows⟩ := (pass_follows reads restored asked).take 4
  have next := drains (h := asking reads restored [.openWriter, .now]) run follows (fun e mem => ?_)
    fun e mem w => meets e w ?_
  · have none : started ++ (asking reads restored [.openWriter, .now]).flatMap starts = started := List.append_nil _
    rw [none] at next
    exact next
  · simp only [asking, List.map_cons, List.map_nil, List.mem_cons, List.not_mem_nil, or_false] at mem
    rcases mem with rfl | rfl
    · exact ⟨rfl, rfl⟩
    · exact ⟨trivial, rfl⟩
  · simp only [asking, List.map_cons, List.map_nil, List.mem_cons, List.not_mem_nil, or_false] at mem
    rcases mem with rfl | rfl <;> exact trivial

theorem faultless_careful (e : Interact.Event DrainSig) (w : World) (faultless : Faultless w (.drain e)) :
    Careful Queued.app w (.drain e) := by
  match e with
  | ⟨.openWriter, .error _⟩ => exact faultless.elim
  | ⟨.control _, answer⟩ => exact fun lost => by cases lost.symm.trans faultless
  | ⟨.openWriter, .ok _⟩ | ⟨.state, _⟩ | ⟨.runSource _, _⟩ | ⟨.now, _⟩ => exact trivial

end Racing

theorem deployed_at_most_once_undisturbed :
    ∃ w, DeployedOnce Queued.app w ∧ w.started = ["d2"] ∧ w.asked = [] := by
  have chose := Racing.deploys Queued.waiting (by decide) (.new Queued.waiting_reachable)
    Racing.faultless_careful
  have opened := Racing.opens Racing.asked_undisturbed chose Racing.faultless_careful
  have follows := Racing.pass_follows _ _ Racing.asked_undisturbed
  have written := opened.step (m := .drain ⟨.control Racing.record, Written.acknowledged⟩)
    (fun lost => by cases lost) (.drain follows trivial)
  exact ⟨_, deployed_at_most_once (written.step (m := .ended) trivial (.ended follows)), rfl, rfl⟩

/-- A decision selects the delivery that is being deployed, and it is deployed again. -/
theorem deployed_twice : ∃ w, Run Queued.app Racing.Faultless w ∧ w.started = ["d2", "d2"] := by
  have chose := Racing.deploys Racing.decided (by decide) (.new Queued.waiting_reachable)
    fun _ _ meets => meets
  have decision := chose.step (m := .other Racing.decision _) trivial
    (.other (fun holds => holds) rfl (Program.play_follows (S := ControlSig) (fun _ => .acknowledged) _))
  have opened := Racing.opens Racing.asked_disturbed decision fun _ _ meets => meets
  have ended := opened.step (m := .ended) trivial (.ended (Racing.pass_follows _ _ Racing.asked_disturbed))
  exact ⟨_, Racing.deploys Racing.decided Racing.asked_again ended fun _ _ meets => meets, rfl⟩

end Harpoon.Git
