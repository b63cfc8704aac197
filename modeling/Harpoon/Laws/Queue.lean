import Harpoon.Laws.Control
import Harpoon.Control.Operations

/-!
# The delivery queue

Whatever control records are accepted, in whatever order, an event is never forgotten, its status only
moves forward, and no application has two selected events. A decision that `resume` records is one that
is accepted, and it decides every event that was held.
-/

namespace Harpoon.Control

open Deploy

/-! ## Statuses only move forward -/

/-- What may become of an event. A held event may still take any status; a selected one may be
dismissed or executed, and every other status is final. -/
def EventStatus.mayBecome (s t : EventStatus) : Bool :=
  s = t || s = .held || (s = .selected && (t = .dismissed || t = .executed || t = .failed))

namespace EventStatus

variable {s t u : EventStatus}

@[simp] theorem mayBecome_refl : s.mayBecome s = true := by simp [mayBecome]

@[simp] theorem held_mayBecome : held.mayBecome t = true := by simp [mayBecome]

theorem mayBecome_trans (first : s.mayBecome t = true) (second : t.mayBecome u = true) :
    s.mayBecome u = true := by
  simp only [mayBecome, Bool.or_eq_true, Bool.and_eq_true, decide_eq_true_eq] at *
  rcases first with (rfl | rfl) | ⟨rfl, (rfl | rfl) | rfl⟩
  · exact second
  · exact .inl (.inr rfl)
  all_goals
    rcases second with (rfl | h) | ⟨h, _⟩
    · simp
    all_goals cases h

/-- A settled event stays as it is. -/
theorem eq_of_mayBecome (may : s.mayBecome t = true) (settled : s.isWaiting = false) : t = s := by
  cases s <;> simp_all [mayBecome, isWaiting]

theorem mayBecome_execStatus {outcome : ExecOutcome} (waiting : s.isWaiting = true) :
    s.mayBecome (ControlState.execStatus outcome) = true := by
  cases s <;> cases outcome <;> first | rfl | cases waiting

end EventStatus

namespace ControlState

variable {s s' s'' : ControlState} {r : ControlRecord} {x : ExecRec} {y : ResumeRec}
  {app : ApplicationId} {e : Event} {k : EventKey}

/-- Every event of `s` is still there in `s'`, with the same content, and its status moved forward. -/
def Moved (s s' : ControlState) : Prop :=
  ∀ k e, s.events.find k = some e →
    ∃ e', s'.events.find k = some e' ∧ e'.record = e.record ∧ e.status.mayBecome e'.status = true

theorem Moved.refl : Moved s s := fun _ e found => ⟨e, found, rfl, EventStatus.mayBecome_refl⟩

theorem Moved.trans (first : Moved s s') (second : Moved s' s'') : Moved s s'' := by
  intro k e found
  obtain ⟨e₁, found₁, record₁, may₁⟩ := first k e found
  obtain ⟨e₂, found₂, record₂, may₂⟩ := second k e₁ found₁
  exact ⟨e₂, found₂, record₂.trans record₁, EventStatus.mayBecome_trans may₁ may₂⟩

theorem moved_settleExec {chosen : Event} (allowed : ExecAllowed s x chosen) :
    Moved s (s.settleExec x) := by
  intro k e found
  rw [find_settleExec allowed]
  split
  next main =>
    have same : chosen = e := by
      rw [main, ← event_eq, allowed.found] at found
      exact Option.some.inj found
    subst same
    exact ⟨_, rfl, rfl, EventStatus.mayBecome_execStatus allowed.waiting⟩
  next =>
    split
    next named =>
      obtain ⟨e', found', _, held, _⟩ := allowed.replaced k.2 named.2
      have same : e' = e := by
        rw [event_eq, ← named.1, found] at found'
        exact (Option.some.inj found').symm
      subst same
      exact ⟨_, congrArg _ found, rfl, by rw [held]; simp⟩
    next => exact ⟨e, found, rfl, EventStatus.mayBecome_refl⟩

theorem moved_settleResume (allowed : ResumeAllowed s y) : Moved s (s.settleResume y) := by
  intro k e found
  have here : k.1 = y.app → s.event y.app k.2 = some e := by
    intro app
    rw [event_eq, ← app]
    exact found
  by_cases named : k.1 = y.app ∧ k.2 ∈ y.superseded.map (·.1)
  · obtain ⟨why, _, after⟩ := find_settleResume_superseded named found
    obtain ⟨p, mem, same⟩ := List.mem_map.mp named.2
    obtain ⟨e', found', held, _⟩ := allowed.superseded p mem
    rw [same, here named.1] at found'
    cases found'
    exact ⟨_, after, rfl, by rw [held]; simp⟩
  · rw [find_settleResume named]
    split
    next picked =>
      obtain ⟨e', found', held⟩ := allowed.selected k.2 picked.2
      rw [here picked.1] at found'
      cases found'
      exact ⟨_, congrArg _ found, rfl, by rw [held]; simp⟩
    next =>
      split
      next dropped =>
        obtain ⟨e', found', may⟩ := allowed.dismissed k.2 dropped.2
        rw [here dropped.1] at found'
        cases found'
        refine ⟨_, congrArg _ found, rfl, ?_⟩
        simp only [mayDismiss, Bool.or_eq_true, Bool.and_eq_true, decide_eq_true_eq] at may
        rcases may with held | ⟨selected, _⟩
        · rw [held]; simp
        · rw [selected]; rfl
      next => exact ⟨e, found, rfl, EventStatus.mayBecome_refl⟩

/-- Step lemma: an accepted record only moves events forward. -/
theorem apply_moved (applied : s.apply r = .ok s') : Moved s s' := by
  cases r with
  | pause p =>
    obtain ⟨_, rfl⟩ := applyPause_ok.mp applied
    exact .refl
  | event e =>
    obtain ⟨free, rfl⟩ := applyEvent_ok.mp applied
    intro k old found
    have other : (Event.hold e).key ≠ k := by
      rintro rfl
      cases free.symm.trans found
    exact ⟨old, by rw [Keyed.Table.find_push, if_neg other]; exact found, rfl, EventStatus.mayBecome_refl⟩
  | exec x =>
    obtain ⟨⟨_, allowed⟩, rfl⟩ := applyExec_ok.mp applied
    exact moved_settleExec allowed
  | resume y =>
    obtain ⟨allowed, rfl⟩ := applyResume_ok.mp applied
    exact moved_settleResume allowed

/-- The record decides on the events of the application. -/
def Decides (app : ApplicationId) : ControlRecord → Prop
  | .exec x => x.app = app
  | .resume y => y.app = app
  | .pause _ | .event _ => False

/-- What a record does not decide on stays as it is. -/
theorem event_of_apply {d : String} (applied : s.apply r = .ok s') (undecided : ¬ Decides app r)
    (found : s.event app d = some e) : s'.event app d = some e := by
  cases r with
  | pause p =>
    obtain ⟨_, rfl⟩ := applyPause_ok.mp applied
    exact found
  | event r =>
    obtain ⟨free, rfl⟩ := applyEvent_ok.mp applied
    have other : (Event.hold r).key ≠ (app, d) := by
      intro same
      rw [same] at free
      cases free.symm.trans found
    rw [event_eq, Keyed.Table.find_push, if_neg other]
    exact found
  | exec x =>
    obtain ⟨⟨chosen, allowed⟩, rfl⟩ := applyExec_ok.mp applied
    have other : app ≠ x.app := fun same => undecided same.symm
    rw [event_eq, find_settleExec allowed, if_neg fun same => other (congrArg Prod.fst same),
      if_neg fun named => other named.1]
    exact found
  | resume y =>
    obtain ⟨allowed, rfl⟩ := applyResume_ok.mp applied
    have other : app ≠ y.app := fun same => undecided same.symm
    rw [event_eq, find_settleResume fun named => other named.1, if_neg fun picked => other picked.1,
      if_neg fun dropped => other dropped.1]
    exact found

/-! ## At most one selected event -/

/-- No application has two selected events. -/
def OneSelected (s : ControlState) : Prop :=
  ∀ e ∈ s.events.rows, ∀ e' ∈ s.events.rows, e.status = .selected → e'.status = .selected →
    e.record.app = e'.record.app → e = e'

/-- An event that is selected after a record was before, or the record is the decision that selected
it while none was pending. -/
theorem selected_of_apply (applied : s.apply r = .ok s') (found : s'.events.find k = some e)
    (selected : e.status = .selected) :
    s.events.find k = some e ∨
      ∃ y, r = .resume y ∧ k.1 = y.app ∧ y.selected = some k.2 ∧ s.pendingSelection y.app = none := by
  cases r with
  | pause p =>
    obtain ⟨_, rfl⟩ := applyPause_ok.mp applied
    exact .inl found
  | event r =>
    obtain ⟨free, rfl⟩ := applyEvent_ok.mp applied
    rw [Keyed.Table.find_push] at found
    split at found
    · cases found; cases selected
    · exact .inl found
  | exec x =>
    obtain ⟨⟨chosen, allowed⟩, rfl⟩ := applyExec_ok.mp applied
    rw [find_settleExec allowed] at found
    split at found
    · cases found
      cases outcome : x.outcome <;> simp [Event.settleBy, Event.settle, execStatus, outcome] at selected
    · split at found
      · obtain ⟨_, _, rfl⟩ := Option.map_eq_some_iff.mp found
        cases selected
      · exact .inl found
  | resume y =>
    obtain ⟨allowed, rfl⟩ := applyResume_ok.mp applied
    by_cases named : k.1 = y.app ∧ k.2 ∈ y.superseded.map (·.1)
    · cases before : s.events.find k with
      | none =>
        obtain ⟨p, mem, same⟩ := List.mem_map.mp named.2
        obtain ⟨_, found', _⟩ := allowed.superseded p mem
        rw [same, event_eq, ← named.1] at found'
        cases before.symm.trans found'
      | some e₀ =>
        obtain ⟨why, _, after⟩ := find_settleResume_superseded named before
        cases after.symm.trans found
        cases selected
    · rw [find_settleResume named] at found
      split at found
      next picked =>
        rcases allowed.shape with ⟨_, none, _⟩ | ⟨_, _, _, _, _, free⟩
        · cases none.symm.trans picked.2
        · exact .inr ⟨y, rfl, picked.1, picked.2, free⟩
      next =>
        split at found
        · obtain ⟨_, _, rfl⟩ := Option.map_eq_some_iff.mp found
          cases selected
        · exact .inl found

/-- Step lemma: an accepted record leaves at most one selected event. -/
theorem OneSelected.apply (one : OneSelected s) (applied : s.apply r = .ok s') : OneSelected s' := by
  intro e mem e' mem' selected selected' app
  have found := Keyed.Table.find_of_mem mem
  have found' := Keyed.Table.find_of_mem mem'
  -- A selected event was selected before, or this record selected it; then none was before.
  have apart : ∀ {a b : Event} {y : ResumeRec}, s.events.find a.key = some a → a.status = .selected →
      s.pendingSelection y.app = none → b.key.1 = y.app → a.record.app = b.record.app → False := by
    intro a b y old selected free here same
    exact pendingSelection_none.mp free a (Keyed.Table.mem_of_find old) (same.trans here) selected
  rcases selected_of_apply applied found selected with old | ⟨y, isResume, here, picked, free⟩
  · rcases selected_of_apply applied found' selected' with old' | ⟨y, _, here, _, free⟩
    · exact one e (Keyed.Table.mem_of_find old) e' (Keyed.Table.mem_of_find old') selected selected' app
    · exact (apart old selected free here app).elim
  · rcases selected_of_apply applied found' selected' with old' | ⟨y', isResume', here', picked', _⟩
    · exact (apart old' selected' free here app.symm).elim
    · cases isResume.symm.trans isResume'
      have key : e.key = e'.key :=
        Prod.ext (here.trans here'.symm) (Option.some.inj (picked.symm.trans picked'))
      rw [key] at found
      exact Option.some.inj (found.symm.trans found')

end ControlState

/-! ## Decisions -/

/-- Decided by a developer. -/
def EventStatus.isDecided : EventStatus → Bool
  | .selected | .dismissed | .superseded _ => true
  | .held | .executed | .failed => false

namespace ControlState

variable {s s' : ControlState} {y : ResumeRec} {app : ApplicationId} {e : Event}

/-- Whether a decision is accepted depends on the events alone. -/
theorem ResumeAllowed.of_events (allowed : ResumeAllowed s y) (same : s'.events = s.events) :
    ResumeAllowed s' y := by
  have event : ∀ d, s'.event y.app d = s.event y.app d := fun d => by rw [ControlState.event, same]; rfl
  have held : s'.held y.app = s.held y.app := by rw [ControlState.held, eventsOf, same]; rfl
  have pending : s'.pendingSelection y.app = s.pendingSelection y.app := by
    rw [pendingSelection, eventsOf, same]; rfl
  constructor
  · cases allowed.shape with
    | dismissal choice selected superseded => exact .dismissal choice selected superseded
    | selection d choice selected cleared dismissed free =>
      exact .selection d choice selected cleared dismissed (pending.trans free)
  · simpa only [event] using allowed.dismissed
  · simpa only [pending] using allowed.pending
  · simpa only [event] using allowed.selected
  · simpa only [event] using allowed.superseded
  · simpa only [held] using allowed.accounted

/-- An accepted decision decides every event that was held. -/
theorem ResumeAllowed.decides (allowed : ResumeAllowed s y) (held : e ∈ s.held y.app) :
    ∃ e', (s.settleResume y).event y.app e.record.delivery = some e' ∧ e'.status.isDecided = true := by
  have found : s.events.find (y.app, e.record.delivery) = some e := event_of_mem_held held
  rw [event_eq]
  by_cases named : (y.app, e.record.delivery).1 = y.app ∧ (y.app, e.record.delivery).2 ∈ y.superseded.map (·.1)
  · obtain ⟨why, _, after⟩ := find_settleResume_superseded named found
    exact ⟨_, after, rfl⟩
  · have accounted := allowed.accounted e held
    rw [find_settleResume named, found]
    simp only [accounts, Bool.or_eq_true, List.contains_iff_mem, decide_eq_true_eq] at accounted
    rcases accounted with (dropped | superseded) | picked
    · split
      · exact ⟨_, rfl, rfl⟩
      · rw [if_pos ⟨rfl, dropped⟩]
        exact ⟨_, rfl, rfl⟩
    · exact absurd ⟨rfl, superseded⟩ named
    · rw [if_pos ⟨rfl, picked⟩]
      exact ⟨_, rfl, rfl⟩

/-- A held event that still waits after a decision was selected by it. -/
theorem selected_of_held {e' : Event} (applied : s.apply (.resume y) = .ok s') (held : e ∈ s.held y.app)
    (found : s'.event y.app e.record.delivery = some e') (waiting : e'.status.isWaiting = true) :
    y.selected = some e.record.delivery := by
  obtain ⟨allowed, rfl⟩ := applyResume_ok.mp applied
  obtain ⟨e₂, found₂, decided⟩ := allowed.decides held
  cases found₂.symm.trans found
  have selected : e'.status = .selected := by
    revert waiting decided
    cases e'.status <;> simp [EventStatus.isWaiting, EventStatus.isDecided]
  rcases selected_of_apply applied found selected with old | ⟨_, isResume, _, picked, _⟩
  · cases old.symm.trans (event_of_mem_held held)
    cases (mem_held.mp held).2.2.symm.trans selected
  · cases isResume
    exact picked

end ControlState

section Decisions

variable {s : ControlState} {app : ApplicationId} {deployments : List Deployment} {nowMs : Nat}
  {choice : Choice} {chosen e : Event} {held : List Event}

theorem dismissal_allowed : s.ResumeAllowed (dismissal deployments s app nowMs) := by
  have mem : ∀ {d}, d ∈ (dismissal deployments s app nowMs).dismissed ↔
      ∃ e, (e ∈ s.held app ∨ s.pendingSelection app = some e) ∧ e.record.delivery = d := by
    intro d
    simp [dismissal, or_and_right, exists_or]
  constructor
  · exact .dismissal rfl rfl rfl
  · intro d named
    obtain ⟨e, held | pending, rfl⟩ := mem.mp named
    · exact ⟨e, ControlState.event_of_mem_held held, by simp [ControlState.mayDismiss, (ControlState.mem_held.mp held).2.2]⟩
    · obtain ⟨found, selected⟩ := ControlState.pendingSelection_some pending
      exact ⟨e, found, by simp [ControlState.mayDismiss, selected, dismissal]⟩
  · exact fun p pending _ => mem.mpr ⟨p, .inr pending, rfl⟩
  · exact fun d selected => by cases selected
  · exact fun p named => by cases named
  · intro e held
    have named := mem.mpr ⟨e, .inl held, rfl⟩
    simp [ControlState.accounts, named]

theorem mem_others {d : String} :
    d ∈ others chosen held ↔ ∃ e ∈ held, e.record.delivery ≠ chosen.record.delivery ∧ e.record.delivery = d := by
  simp [others, and_assoc]

theorem selection_allowed (kind : choice ≠ .dismiss) (free : s.pendingSelection app = none)
    (mem : chosen ∈ s.held app) : s.ResumeAllowed (selection s app choice chosen nowMs) := by
  have named : ∀ {d}, d ∈ (selection s app choice chosen nowMs).superseded.map (·.1) ↔
      d ∈ others chosen (s.held app) := by
    simp [selection]
  constructor
  · exact .selection _ kind rfl rfl rfl free
  · exact fun d named => by cases named
  · exact fun p pending => by cases free.symm.trans pending
  · intro d picked
    cases picked
    exact ⟨chosen, ControlState.event_of_mem_held mem, (ControlState.mem_held.mp mem).2.2⟩
  · intro p mem
    obtain ⟨e, held, other, same⟩ := mem_others.mp (named.mp (List.mem_map_of_mem mem))
    refine ⟨e, same ▸ ControlState.event_of_mem_held held, (ControlState.mem_held.mp held).2.2, ?_⟩
    intro picked
    exact other (same.trans (Option.some.inj picked).symm)
  · intro e held
    by_cases same : e.record.delivery = chosen.record.delivery
    · simp [ControlState.accounts, selection, same]
    · have mem := named.mpr (mem_others.mpr ⟨e, held, same, rfl⟩)
      simp only [ControlState.accounts, List.contains_iff_mem.mpr mem, Bool.or_true, Bool.true_or]

theorem later_cases (a b : Event) : later a b = a ∨ later a b = b := by
  unfold later; split <;> simp

theorem newestOf_mem (newest : newestOf held = some e) : e ∈ held := by
  cases held with
  | nil => cases newest
  | cons a held =>
    cases newest
    induction held generalizing a with
    | nil => exact List.mem_cons_self
    | cons b held ih =>
      rw [List.foldl_cons]
      rcases List.mem_cons.mp (ih (later a b)) with same | mem
      · rcases later_cases a b with isA | isB
        · rw [same, isA]; exact List.mem_cons_self
        · rw [same, isB]; exact List.mem_cons_of_mem _ List.mem_cons_self
      · exact List.mem_cons_of_mem _ (List.mem_cons_of_mem _ mem)

theorem choose_mem (chose : choose app choice held = .ok chosen) : chosen ∈ held := by
  unfold choose at chose
  split at chose
  · split at chose
    next newest =>
      cases chose
      exact (List.mem_filter.mp (newestOf_mem newest)).1
    next => cases chose
  all_goals
    split at chose
    next newest => cases chose; exact newestOf_mem newest
    next => cases chose

end Decisions

end Harpoon.Control
