import Harpoon.Journal.Replay
import Harpoon.Laws.Format
import Harpoon.Laws.Newest
import Harpoon.Laws.Writes

/-!
# Control records survive the journal

What an operation writes is read back as it was written, and replaying the lines of all calls gives the
state that is in memory. A delivery id may be `-`, which the journal also writes for an empty list and for
no selection: a call that would write a list of this one id, or select it, is left out.
-/

namespace Harpoon.Control

open Deploy Interact Process Journal

/-! ## Names that were accepted -/

namespace ControlState

variable {s s' : ControlState} {r : ControlRecord} {rs : List ControlRecord} {app : ApplicationId} {d : String}
  {e : Event}

/-- The contents of the events, in the order they were recorded. -/
def records (s : ControlState) : List EventRec := s.events.rows.map Event.record

/-- A record adds the event it brings, and no record changes what an event is. -/
theorem records_apply (applied : s.apply r = .ok s') :
    s'.records = s.records ∨ ∃ e, r = .event e ∧ s'.records = s.records ++ [e] := by
  cases r with
  | pause p =>
    obtain ⟨_, rfl⟩ := applyPause_ok.mp applied
    exact .inl rfl
  | event e =>
    obtain ⟨free, rfl⟩ := applyEvent_ok.mp applied
    refine .inr ⟨e, rfl, ?_⟩
    simp [records, Keyed.Table.push, Event.hold]
  | exec x =>
    obtain ⟨_, rfl⟩ := applyExec_ok.mp applied
    refine .inl ?_
    exact (Keyed.Table.map_changeEach fun _ => Event.record_settleBy).trans
      (Keyed.map_modify fun e _ => Event.record_settleBy e)
  | resume y =>
    obtain ⟨_, rfl⟩ := applyResume_ok.mp applied
    refine .inl ?_
    refine (Keyed.Table.map_changeEach fun _ => Event.record_settleBy).trans ?_
    exact (Keyed.Table.map_changeEach fun _ => Event.record_settle).trans
      (Keyed.Table.map_changeEach fun _ => Event.record_settle)

/-- Every delivery id is one that was accepted. -/
def WellNamed (s : ControlState) : Prop := ∀ e ∈ s.records, checkDelivery e.delivery = .ok ()

theorem WellNamed.of_event (named : s.WellNamed) (found : s.event app d = some e) :
    checkDelivery d = .ok () := by
  have accepted := named e.record (List.mem_map_of_mem (Keyed.Table.mem_of_find found))
  rwa [event_delivery found] at accepted

theorem WellNamed.of_held (named : s.WellNamed) (held : e ∈ s.held app) :
    checkDelivery e.record.delivery = .ok () := named.of_event (event_of_mem_held held)

/-- Step lemma. -/
theorem WellNamed.apply (named : s.WellNamed) (back : ReadsBack r) (applied : s.apply r = .ok s') :
    s'.WellNamed := by
  rcases records_apply applied with same | ⟨e, rfl, more⟩
  · intro e mem
    exact named e (same ▸ mem)
  · intro e' mem
    rcases List.mem_append.mp (more ▸ mem) with old | new
    · exact named e' old
    · cases List.mem_singleton.mp new
      exact back.2.1

/-- Run lemma. -/
theorem WellNamed.replay (named : s.WellNamed) (back : ∀ r ∈ rs, ReadsBack r) (ok : s.replay rs = .ok s') :
    s'.WellNamed := by
  induction rs generalizing s with
  | nil => cases ok; exact named
  | cons r rs ih =>
    simp only [ControlState.replay, bind, Except.bind] at ok
    split at ok
    · cases ok
    next s₁ applied =>
      exact ih (named.apply (back r List.mem_cons_self) applied)
        (fun r mem => back r (List.mem_cons_of_mem _ mem)) ok

end ControlState

/-! ## The condition -/

/-- The pauses of the deployments have times of 64 bits. -/
def PausesFit (deployments : List Deployment) : Prop := ∀ c ∈ pauseCandidates deployments, c.atMs ≤ maxNumber

/-- The times a call is given are numbers of 64 bits, as their type in the source says. -/
def ControlOp.Fits : ControlOp → Prop
  | .queueEvent ev => ev.receivedMs ≤ maxNumber
  | .ingest deployments ev => ev.receivedMs ≤ maxNumber ∧ PausesFit deployments
  | .recordExec x => x.atMs ≤ maxNumber
  | .resume deployments _ _ nowMs => nowMs ≤ maxNumber ∧ PausesFit deployments
  | .syncPauses deployments => PausesFit deployments

/-- The events that a selection may choose. -/
def eligible (choice : Choice) (held : List Event) : List Event :=
  match choice with
  | .revision r => held.filter fun e => e.record.revision = r
  | .dismiss | .newest => held

/-- The call writes no list of the one id `-`, and does not select it. -/
def ControlOp.Told (s : ControlState) : ControlOp → Prop
  | .queueEvent _ | .ingest _ _ | .syncPauses _ => True
  | .recordExec x => s.checkExec x = .ok () → x.superseded ≠ ["-"]
  | .resume _ app .dismiss _ =>
    (s.held app ++ (s.pendingSelection app).toList).map (fun e => e.record.delivery) ≠ ["-"]
  | .resume _ app choice _ =>
    s.pendingSelection app = none → ∀ e, newestOf (eligible choice (s.held app)) = some e → e.record.delivery ≠ "-"

/-! ## What the operations hand over -/

section

variable {s : ControlState} {deployments : List Deployment} {ev : Incoming} {exec : ExecRec} {app : ApplicationId}
  {choice : Choice} {chosen : Event} {nowMs : Nat} {op : ControlOp} {r : ControlRecord}

theorem ControlOp.Fits.pauses (fits : op.Fits) : PausesFit op.deployments := by
  cases op with
  | queueEvent ev | recordExec x => exact fun _ mem => by cases mem
  | ingest deployments ev | resume deployments app choice nowMs => exact fits.2
  | syncPauses deployments => exact fits

theorem readsBack_event (checked : ev.check = .ok ()) (fits : ev.receivedMs ≤ maxNumber) :
    ReadsBack (.event ev.record) := by
  simp only [Incoming.check, check_bind_eq_ok] at checked
  exact ⟨fits, checked.1, checked.2.1, checked.2.2⟩

theorem readsBack_exec {s' : ControlState} (named : s.WellNamed) (fits : exec.atMs ≤ maxNumber)
    (told : s.checkExec exec = .ok () → exec.superseded ≠ ["-"]) (applies : s.applyExec exec = .ok s') :
    ReadsBack (.exec exec) := by
  obtain ⟨⟨chosen, allowed⟩, _⟩ := ControlState.applyExec_ok.mp applies
  have superseded : ∀ d ∈ exec.superseded, checkDelivery d = .ok () := by
    intro d mem
    obtain ⟨e, found, _⟩ := allowed.replaced d mem
    exact named.of_event found
  exact ⟨fits, named.of_event allowed.found, superseded, told (ControlState.checkExec_ok.mpr ⟨chosen, allowed⟩)⟩

theorem readsBack_dismissal (named : s.WellNamed) (fits : nowMs ≤ maxNumber)
    (told : (s.held app ++ (s.pendingSelection app).toList).map (fun e => e.record.delivery) ≠ ["-"]) :
    ReadsBack (.resume (dismissal deployments s app nowMs)) := by
  refine ⟨fits, fun _ choice => (by cases choice), fun _ none => (by cases none), fun d mem => ?_, told,
    fun _ mem => (by cases mem)⟩
  obtain ⟨e, waits, rfl⟩ := List.mem_map.mp mem
  rcases List.mem_append.mp waits with held | pending
  · exact named.of_held held
  · exact named.of_event (ControlState.pendingSelection_some (Option.mem_toList.mp pending)).1

theorem newestOf_of_choose {held : List Event} (chose : choose app choice held = .ok chosen) :
    newestOf (eligible choice held) = some chosen := by
  unfold choose at chose
  unfold eligible
  split at chose <;>
    · split at chose
      next newest => cases chose; exact newest
      next => cases chose

theorem readsBack_selection (named : s.WellNamed) (fits : nowMs ≤ maxNumber) (checked : checkChoice choice = .ok ())
    (mem : chosen ∈ s.held app) (told : chosen.record.delivery ≠ "-") :
    ReadsBack (.resume (selection s app choice chosen nowMs)) := by
  refine ⟨fits, ?_, ?_, fun _ mem => (by cases mem), fun dash => (by cases dash), ?_⟩
  · rintro r rfl
    exact checked
  · intro d selected
    cases selected
    exact ⟨named.of_held mem, told⟩
  · intro p mem
    obtain ⟨d, other, rfl⟩ := List.mem_map.mp mem
    obtain ⟨e, held, _, rfl⟩ := mem_others.mp other
    exact named.of_held held

/-- Every record that a call may write is read back from its line. -/
theorem ControlOp.MayWrite.readsBack (may : op.MayWrite s r) (named : s.WellNamed) (fits : op.Fits)
    (told : op.Told s) : ReadsBack r := by
  cases may with
  | queued checked _ => exact readsBack_event checked fits
  | ingested checked _ => exact readsBack_event checked fits.1
  | executed applies => exact readsBack_exec named fits told applies
  | dismissed => exact readsBack_dismissal named fits.1 told
  | @selected deployments app choice nowMs chosen kind checked free chose =>
    refine readsBack_selection named fits.1 checked (choose_mem chose) ?_
    cases choice with
    | dismiss => exact absurd rfl kind
    | newest | revision r => exact told free chosen (newestOf_of_choose chose)
  | paused mem => exact fits.pauses _ mem

end

/-! ## The journal -/

/-- The records of the writes that are stored. -/
def stored (h : Writes) : List ControlRecord := (h.filter fun w => w.answer.isStored).map fun w => w.op

/-- A sequence of calls, each cut short anywhere, left the records `rs` in the journal, which amount to
`s`. Every call met the condition. -/
inductive Journaled : List ControlRecord → ControlState → Prop where
  | new : Journaled [] .new
  | next {rs : List ControlRecord} {s : ControlState} {h : Writes}
      {q : Program ControlSig (Except ControlError Outcome × ControlState)} (op : ControlOp)
      (before : Journaled rs s) (fits : op.Fits) (told : op.Told s)
      (follows : Program.Follows (op.run.toProgram s) h q) : Journaled (rs ++ stored h) (onDisk s h)

section

variable {β σ : Type} {keep : Keeping β σ} {s s' : ControlState} {rs rs' : List ControlRecord} {h : Writes}
  {op : ControlOp} {q : Program ControlSig (Except ControlError Outcome × ControlState)}

theorem replay_append (first : s.replay rs = .ok s') : s.replay (rs ++ rs') = s'.replay rs' := by
  induction rs generalizing s with
  | nil => cases first; rfl
  | cons r rs ih =>
    simp only [ControlState.replay, List.cons_append, bind, Except.bind] at first ⊢
    split at first
    · cases first
    next applied => exact ih first

theorem onDisk_cons {w : Interact.Event ControlSig} : onDisk s (w :: h) = onDisk (store s w) h := rfl

/-- Replaying what is stored gives what a reader makes of the writes. -/
theorem replay_stored
    (accepted : ∀ before w rest, h = before ++ w :: rest → ∃ s', (onDisk s before).apply w.op = .ok s') :
    s.replay (stored h) = .ok (onDisk s h) := by
  induction h generalizing s with
  | nil => rfl
  | cons w h ih =>
    have rest : (store s w).replay (stored h) = .ok (onDisk (store s w) h) :=
      ih fun before w' rest split => accepted (w :: before) w' rest (congrArg (w :: ·) split)
    obtain ⟨s₁, applies⟩ := accepted [] w h rfl
    rw [onDisk_cons, ← rest]
    cases kept : w.answer.isStored with
    | false =>
      have skips : stored (w :: h) = stored h := by simp [stored, kept]
      have same : store s w = s := by rw [store, kept]; rfl
      rw [skips, same]
    | true =>
      have takes : stored (w :: h) = w.op :: stored h := by simp [stored, kept]
      have moves : store s w = s₁ := by
        rw [store, if_pos kept, applied, show s.apply w.op = .ok s₁ from applies]
      rw [takes, moves, ControlState.replay, show s.apply w.op = .ok s₁ from applies]
      rfl

theorem applyAll_controls {st : State σ} {i : Nat} (ok : st.control.replay rs = .ok s) :
    st.applyAll keep i (rs.map .control) = .ok { st with control := s } := by
  induction rs generalizing st with
  | nil => cases ok; rfl
  | cons r rs ih =>
    simp only [ControlState.replay, bind, Except.bind] at ok
    split at ok
    · cases ok
    next s₁ applies =>
      have step : st.apply keep i (.control r) = .ok { st with control := s₁ } := by
        simp only [State.apply, applies]
      rw [List.map_cons, State.applyAll, step]
      exact @ih { st with control := s₁ } ok

/-- What a call hands over, with its records so far in the journal, is read back. -/
theorem Handed.readsBack (named : s.WellNamed) (fits : op.Fits) (told : op.Told s)
    (follows : Program.Follows (op.run.toProgram s) h q) : ∀ w ∈ h, ReadsBack w.op :=
  fun w mem => (ControlOp.mayWrite follows w mem).readsBack named fits told

theorem mem_stored {r : ControlRecord} (mem : r ∈ stored h) : ∃ w ∈ h, w.op = r := by
  obtain ⟨w, inside, same⟩ := List.mem_map.mp mem
  exact ⟨w, (List.mem_filter.mp inside).1, same⟩

/-- What the records of a journal amount to, and that each of them is read back. -/
structure Amounts (rs : List ControlRecord) (s : ControlState) : Prop where
  reachable : Reachable s
  back : ∀ r ∈ rs, ReadsBack r
  replayed : ControlState.new.replay rs = .ok s

theorem Amounts.named (amounts : Amounts rs s) : s.WellNamed :=
  ControlState.WellNamed.replay (fun _ mem => by cases mem) amounts.back amounts.replayed

/-- Step lemma: a call that meets the condition. -/
theorem Amounts.next (amounts : Amounts rs s) (fits : op.Fits) (told : op.Told s)
    (follows : Program.Follows (op.run.toProgram s) h q) : Amounts (rs ++ stored h) (onDisk s h) where
  reachable := .next op amounts.reachable follows
  back r mem := by
    rcases List.mem_append.mp mem with old | new
    · exact amounts.back r old
    · obtain ⟨w, inside, rfl⟩ := mem_stored new
      exact Handed.readsBack amounts.named fits told follows w inside
  replayed := by
    rw [replay_append amounts.replayed]
    exact replay_stored (queue_invariants amounts.reachable op follows).2.2.1

/-- Run lemma. -/
theorem Journaled.amounts (journaled : Journaled rs s) : Amounts rs s := by
  induction journaled with
  | new => exact ⟨.new, fun _ mem => (by cases mem), rfl⟩
  | next op _ fits told follows ih => exact ih.next fits told follows

/-- A call that ended has in memory what the journal holds, unless a write that was reported as failed is
stored. -/
theorem Ended.memory {out : Except ControlError Outcome} (ended : Ended s op out s' h)
    (taken : ∀ w ∈ h, w.answer.isStored = true → w.answer = .acknowledged) : s' = onDisk s h := by
  cases out with
  | ok res => exact (ended.returned res rfl).1.symm
  | error e =>
    cases e with
    | invalid why | conflict why =>
      obtain ⟨rfl, rfl⟩ := ended.refused why (by simp)
      rfl
    | journal e =>
      obtain ⟨before, r, stored, rfl, _, disk⟩ := ended.lost e rfl
      have unstored : stored = false := by
        cases stored with
        | false => rfl
        | true => cases taken _ List.mem_concat_self rfl
      rw [onDisk_append, disk, unstored]
      rfl

/-- What a journal gives back after a call that wrote `h` and has `q` left. -/
structure GivesBack (keep : Keeping β σ) (rs : List ControlRecord) (s : ControlState) (h : Writes)
    (q : Program ControlSig (Except ControlError Outcome × ControlState)) : Prop where
  /-- Every record that was handed over is read back from its line. -/
  decoded : ∀ w ∈ h, decodeLine keep.decode (encode w.op) = .ok (.control w.op)
  /-- The lines of all calls are read, and amount to what the journal holds. -/
  replayed : ∃ lines, ((rs ++ stored h).map encode).mapM (decodeLine keep.decode) = .ok lines ∧
    (State.start keep).applyAll keep 0 lines = .ok { State.start keep with control := onDisk s h }
  /-- That is what is in memory, unless a write that was reported as failed is stored. -/
  memory : ∀ out s', q = .done (out, s') →
    (∀ w ∈ h, w.answer.isStored = true → w.answer = .acknowledged) → s' = onDisk s h

/-- In every sequence of calls that meet the condition, each cut short anywhere, every record survives the
journal, and replaying the journal gives the state in memory. -/
theorem control_records_survive (journaled : Journaled rs s) (fits : op.Fits) (told : op.Told s)
    (follows : Program.Follows (op.run.toProgram s) h q) : GivesBack keep rs s h q where
  decoded w mem := decodeLine_control (Handed.readsBack journaled.amounts.named fits told follows w mem)
  replayed := by
    have after := journaled.amounts.next fits told follows
    exact ⟨(rs ++ stored h).map .control, mapM_map fun r mem => decodeLine_control (after.back r mem),
      applyAll_controls after.replayed⟩
  memory out s' isDone taken := by
    subst isDone
    exact (Ended.of_follows follows).memory taken

/-- A list of the one id `-` is written like the empty list. -/
theorem encode_exec_dash {x : ExecRec} (dash : x.superseded = ["-"]) :
    encode (.exec x) = encode (.exec { x with superseded := [] }) := by
  have same : csv x.superseded = csv [] := by rw [dash]; decide
  simp only [encode, recordFields, execFields, same]

end

/-! ### Deliveries that were superseded -/

namespace Queued

/-- A journal in which no other kind of record is known. -/
def nothingElse : Keeping Unit Unit where
  decode _ := .error "unknown record"
  empty := ()
  apply _ _ := .ok ()
  checkLogs _ _ := .ok ()
  checkPins _ _ := .ok ()

def played (s : ControlState) (op : ControlOp) : Writes × Except ControlError Outcome × ControlState :=
  (op.run.toProgram s).play (S := ControlSig) fun _ => .acknowledged

/-- The executor takes the newest of two pushes. -/
def execution (older : String) : ControlOp := .recordExec ⟨app, "d2", .failed, none, "no image", [older], 10⟩

theorem journaled_after {rs : List ControlRecord} {s : ControlState} {op : ControlOp} (journaled : Journaled rs s)
    (fits : op.Fits) (told : op.Told s) : Journaled (rs ++ stored (played s op).1) (after s op) :=
  .next op journaled fits told (Program.play_follows _ _)

theorem waiting_journaled : ∃ rs, Journaled rs waiting := by
  have fits : 7 ≤ maxNumber ∧ 9 ≤ maxNumber := by decide
  exact ⟨_, journaled_after (journaled_after .new fits.1 trivial) fits.2 trivial⟩

/-- Two events are held, and the older one is called `-`. -/
def dashed : ControlState := after (after .new (push "-" 7)) (push "d2" 9)

theorem dashed_reachable : Reachable dashed := reachable_after (reachable_after .new _) _

end Queued

theorem control_records_survive_queued :
    (∃ rs, GivesBack Queued.nothingElse rs Queued.waiting (Queued.played Queued.waiting (Queued.execution "d1")).1
      (.done (Queued.played Queued.waiting (Queued.execution "d1")).2)) ∧
    stored (Queued.played Queued.waiting (Queued.execution "d1")).1 ≠ [] := by
  obtain ⟨rs, journaled⟩ := Queued.waiting_journaled
  have fits : (Queued.execution "d1").Fits := Nat.le_of_ble_eq_true rfl
  have told : ["d1"] ≠ ["-"] := by decide
  exact ⟨⟨rs, control_records_survive journaled fits (fun _ => told) (Program.play_follows _ _)⟩, by decide⟩

/-- The executor's own choice supersedes the event called `-`, and its record is read back without it. -/
theorem superseded_dash_is_dropped :
    ∃ s op h out s', Reachable s ∧ ControlOp.Fits op ∧ Program.Follows (op.run.toProgram s) h (.done (out, s')) ∧
      (nextExecution [] s Queued.app).execution.any (fun p => p.2 = ["-"]) = true ∧
      ∃ w ∈ h, w.answer = Written.acknowledged ∧ ∃ x, w.op = .exec x ∧ x.superseded = ["-"] ∧
        decodeLine Queued.nothingElse.decode (encode w.op) = .ok (.control (.exec { x with superseded := [] })) := by
  have written : (Queued.played Queued.dashed (Queued.execution "-")).1.any (fun w =>
      w.op = .exec ⟨Queued.app, "d2", .failed, none, "no image", ["-"], 10⟩ ∧ w.answer = .acknowledged) = true := by
    decide
  have chosen : (nextExecution [] Queued.dashed Queued.app).execution.any (fun p => p.2 = ["-"]) = true := by
    decide
  have fits : (Queued.execution "-").Fits := Nat.le_of_ble_eq_true rfl
  have accepted : checkDelivery "d2" = .ok () := by rfl
  obtain ⟨w, mem, same⟩ := List.any_eq_true.mp written
  obtain ⟨isExec, taken⟩ := of_decide_eq_true same
  refine ⟨Queued.dashed, Queued.execution "-", _, _, _, Queued.dashed_reachable, fits, Program.play_follows _ _,
    chosen, w, mem, taken, _, isExec, rfl, ?_⟩
  rw [isExec, encode_exec_dash rfl]
  exact decodeLine_control ⟨fits, accepted, fun _ mem => (by cases mem), fun dash => (by cases dash)⟩

end Harpoon.Control
