import Harpoon.Control.State

/-!
# What one control record does

`ControlState.apply` accepts a record exactly when its references stand (`ExecAllowed`,
`ResumeAllowed`), and then changes the events it names and no other. Everything later is derived from
the two facts here: when a record is accepted, and under which key each event is found afterwards.
-/

namespace Harpoon.Control

open Deploy

/-- A check, then the rest. -/
theorem check_bind_eq_ok {ε β : Type} {x : Except ε Unit} {y : Except ε β} {b : β} :
    (x >>= fun _ => y) = .ok b ↔ x = .ok () ∧ y = .ok b := by
  cases x <;> simp [bind, Except.bind]

namespace ControlState

variable {s s' : ControlState} {r : ControlRecord} {x : ExecRec} {y : ResumeRec} {app : ApplicationId}
  {d : String} {e : Event} {k : EventKey}

/-! ## Queries -/

theorem event_eq : s.event app d = s.events.find (app, d) := rfl

theorem mem_eventsOf : e ∈ s.eventsOf app ↔ e ∈ s.events.rows ∧ e.record.app = app := by
  simp [eventsOf]

theorem mem_held : e ∈ s.held app ↔ e ∈ s.events.rows ∧ e.record.app = app ∧ e.status = .held := by
  simp [held, mem_eventsOf, and_assoc]

theorem event_of_mem_held (h : e ∈ s.held app) : s.event app e.record.delivery = some e := by
  obtain ⟨mem, rfl, _⟩ := mem_held.mp h
  exact Keyed.Table.find_of_mem mem

theorem event_app (found : s.event app d = some e) : e.record.app = app :=
  congrArg Prod.fst (Keyed.Table.key_of_find found)

theorem event_delivery (found : s.event app d = some e) : e.record.delivery = d :=
  congrArg Prod.snd (Keyed.Table.key_of_find found)

theorem mem_held_of_event (found : s.event app d = some e) (held : e.status = .held) : e ∈ s.held app :=
  mem_held.mpr ⟨Keyed.Table.mem_of_find found, event_app found, held⟩

theorem pendingSelection_some (h : s.pendingSelection app = some e) :
    s.event app e.record.delivery = some e ∧ e.status = .selected := by
  have status := List.find?_some h
  obtain ⟨mem, rfl⟩ := mem_eventsOf.mp (List.mem_of_find?_eq_some h)
  exact ⟨Keyed.Table.find_of_mem mem, by simpa using status⟩

theorem pendingSelection_none :
    s.pendingSelection app = none ↔ ∀ e ∈ s.events.rows, e.record.app = app → e.status ≠ .selected := by
  simp [pendingSelection, mem_eventsOf]

/-! ## A pause, an event -/

theorem applyPause_ok {p : PauseRec} :
    s.applyPause p = .ok s' ↔ s.pauseOf p.origin = none ∧ s' = { s with pauses := s.pauses ++ [p] } := by
  have absent : s.pauseOf p.origin = none ↔ (s.pauses.any fun x => x.origin = p.origin) = false := by
    simp [pauseOf]
  unfold applyPause
  rw [absent]
  cases s.pauses.any fun x => x.origin = p.origin <;> simp [eq_comm]

theorem applyEvent_ok {e : EventRec} :
    s.applyEvent e = .ok s' ↔ ∃ free : s.events.find (Event.hold e).key = none,
      s' = { s with events := s.events.push (.hold e) free } := by
  unfold applyEvent
  split
  next found => simp [found]
  next free => simp [free, eq_comm]

/-! ## An execution -/

/-- When an execution is accepted. -/
structure ExecAllowed (s : ControlState) (x : ExecRec) (chosen : Event) : Prop where
  found : s.event x.app x.delivery = some chosen
  waiting : chosen.status.isWaiting = true
  agrees : outcomeAgrees x = true
  replaced : ∀ d ∈ x.superseded, ∃ e, s.event x.app d = some e ∧ d ≠ x.delivery ∧ e.status = .held ∧
    e.record.receivedMs ≤ chosen.record.receivedMs

theorem checkReplaced_ok {chosen : Event} {ds : List String} :
    s.checkReplaced x chosen ds = .ok () ↔
      ∀ d ∈ ds, ∃ e, s.event x.app d = some e ∧ d ≠ x.delivery ∧ e.status = .held ∧
        e.record.receivedMs ≤ chosen.record.receivedMs := by
  induction ds with
  | nil => simp [checkReplaced]
  | cons d ds ih =>
    rw [List.forall_mem_cons, ← ih, checkReplaced]
    cases found : s.event x.app d with
    | none => simp
    | some e =>
      by_cases refused : d = x.delivery ∨ e.status ≠ .held
      · have no : ¬ (d ≠ x.delivery ∧ e.status = .held) := fun h => refused.elim h.1 (absurd h.2 ·)
        simp only [if_pos refused, Option.some.injEq, exists_eq_left', reduceCtorEq, false_iff]
        exact fun h => no ⟨h.1.1, h.1.2.1⟩
      · simp only [not_or, ne_eq, Decidable.not_not] at refused
        by_cases newer : e.record.receivedMs > chosen.record.receivedMs
        · simp [refused, newer, Nat.not_le_of_gt newer]
        · simp [refused, newer, Nat.le_of_not_gt newer]

theorem checkExec_ok : s.checkExec x = .ok () ↔ ∃ chosen, ExecAllowed s x chosen := by
  unfold checkExec
  cases found : s.event x.app x.delivery with
  | none =>
    simp only [reduceCtorEq, false_iff]
    rintro ⟨_, allowed⟩
    cases found.symm.trans allowed.found
  | some e =>
    have same : ∀ chosen, ExecAllowed s x chosen → chosen = e := fun chosen allowed =>
      Option.some.inj (allowed.found.symm.trans found)
    by_cases waiting : e.status.isWaiting = true
    · by_cases agrees : outcomeAgrees x = true
      · simp only [waiting, agrees, Bool.not_true, Bool.false_eq_true, if_false, checkReplaced_ok]
        exact ⟨fun h => ⟨e, found, waiting, agrees, h⟩, fun ⟨_, allowed⟩ => same _ allowed ▸ allowed.replaced⟩
      · simp only [waiting, agrees, Bool.not_true, Bool.not_false, Bool.false_eq_true, if_false, if_true]
        simp only [reduceCtorEq, false_iff]
        exact fun ⟨_, allowed⟩ => agrees allowed.agrees
    · simp only [waiting, Bool.not_false, if_true, reduceCtorEq, false_iff]
      exact fun ⟨_, allowed⟩ => waiting (same _ allowed ▸ allowed.waiting)

theorem applyExec_ok :
    s.applyExec x = .ok s' ↔ (∃ chosen, ExecAllowed s x chosen) ∧ s' = s.settleExec x := by
  unfold applyExec
  rw [check_bind_eq_ok, ← checkExec_ok]
  simp [pure, Except.pure, eq_comm]

/-! ## A decision -/

/-- The shape of an accepted decision. -/
inductive Shape (s : ControlState) (y : ResumeRec) : Prop where
  | dismissal (choice : y.choice = .dismiss) (selected : y.selected = none) (superseded : y.superseded = [])
  | selection (d : String) (choice : y.choice ≠ .dismiss) (selected : y.selected = some d)
      (cleared : y.cleared = []) (dismissed : y.dismissed = []) (free : s.pendingSelection y.app = none)

/-- When a decision is accepted. -/
structure ResumeAllowed (s : ControlState) (y : ResumeRec) : Prop where
  shape : Shape s y
  dismissed : ∀ d ∈ y.dismissed, ∃ e, s.event y.app d = some e ∧ mayDismiss y e = true
  pending : ∀ p, s.pendingSelection y.app = some p → y.choice = .dismiss → p.record.delivery ∈ y.dismissed
  selected : ∀ d, y.selected = some d → ∃ e, s.event y.app d = some e ∧ e.status = .held
  superseded : ∀ p ∈ y.superseded, ∃ e, s.event y.app p.1 = some e ∧ e.status = .held ∧ y.selected ≠ some p.1
  accounted : ∀ e ∈ s.held y.app, accounts y e.record.delivery = true

theorem checkShape_ok : s.checkShape y = .ok () ↔ Shape s y := by
  unfold checkShape
  constructor
  · intro checked
    cases choice : y.choice <;> cases selected : y.selected <;> simp only [choice, selected] at checked
    case dismiss.none =>
      refine .dismissal choice selected ?_
      split at checked
      · cases checked
      · simp_all
    case newest.some d | revision.some r d =>
      have free : y.cleared = [] ∧ y.dismissed = [] ∧ s.pendingSelection y.app = none := by
        split at checked
        · cases checked
        · split at checked
          · cases checked
          · simp_all
      exact .selection d (by simp [choice]) selected free.1 free.2.1 free.2.2
    all_goals cases checked
  · rintro (⟨choice, selected, superseded⟩ | ⟨d, choice, selected, cleared, dismissed, free⟩)
    · simp [choice, selected, superseded]
    · cases kind : y.choice with
      | dismiss => exact absurd kind choice
      | newest | revision r => simp [selected, cleared, dismissed, free]

theorem checkDismissed_ok {ds : List String} :
    s.checkDismissed y ds = .ok () ↔ ∀ d ∈ ds, ∃ e, s.event y.app d = some e ∧ mayDismiss y e = true := by
  induction ds with
  | nil => simp [checkDismissed]
  | cons d ds ih =>
    rw [List.forall_mem_cons, ← ih, checkDismissed]
    cases s.event y.app d with
    | none => simp
    | some e => by_cases may : mayDismiss y e = true <;> simp [may]

theorem checkPending_ok : s.checkPending y = .ok () ↔
    ∀ p, s.pendingSelection y.app = some p → y.choice = .dismiss → p.record.delivery ∈ y.dismissed := by
  unfold checkPending
  cases s.pendingSelection y.app with
  | none => simp
  | some p =>
    by_cases choice : y.choice = .dismiss <;> by_cases mem : p.record.delivery ∈ y.dismissed <;>
      simp [choice, mem]

theorem checkSelected_ok : s.checkSelected y = .ok () ↔
    ∀ d, y.selected = some d → ∃ e, s.event y.app d = some e ∧ e.status = .held := by
  unfold checkSelected
  cases y.selected with
  | none => simp
  | some d =>
    cases found : s.event y.app d with
    | none => simp [found]
    | some e => by_cases held : e.status = .held <;> simp [found, held]

theorem checkSuperseded_ok {ps : List (String × SupersededWhy)} :
    s.checkSuperseded y ps = .ok () ↔
      ∀ p ∈ ps, ∃ e, s.event y.app p.1 = some e ∧ e.status = .held ∧ y.selected ≠ some p.1 := by
  induction ps with
  | nil => simp [checkSuperseded]
  | cons p ps ih =>
    rw [List.forall_mem_cons, ← ih, checkSuperseded]
    cases s.event y.app p.1 with
    | none => simp
    | some e =>
      by_cases held : e.status = .held <;> by_cases chosen : y.selected = some p.1 <;>
        simp [held, chosen]

theorem checkAccounted_ok :
    s.checkAccounted y = .ok () ↔ ∀ e ∈ s.held y.app, accounts y e.record.delivery = true := by
  unfold checkAccounted
  cases left : (s.held y.app).find? fun e => !accounts y e.record.delivery with
  | none => simpa using left
  | some e =>
    simp only [reduceCtorEq, false_iff]
    intro all
    have named := all e (List.mem_of_find?_eq_some left)
    have unnamed := List.find?_some left
    simp [named] at unnamed

theorem checkResume_ok : s.checkResume y = .ok () ↔ ResumeAllowed s y := by
  unfold checkResume
  simp only [check_bind_eq_ok, checkShape_ok, checkDismissed_ok, checkPending_ok, checkSelected_ok,
    checkSuperseded_ok, checkAccounted_ok]
  exact ⟨fun ⟨a, b, c, d, e, f⟩ => ⟨a, b, c, d, e, f⟩, fun ⟨a, b, c, d, e, f⟩ => ⟨a, b, c, d, e, f⟩⟩

theorem applyResume_ok : s.applyResume y = .ok s' ↔ ResumeAllowed s y ∧ s' = s.settleResume y := by
  unfold applyResume
  rw [check_bind_eq_ok, ← checkResume_ok]
  simp [pure, Except.pure, eq_comm]

/-! ## What becomes of an event -/

section Effects

/-- A delivery is named under its application. -/
theorem mem_naming {ds : List String} :
    k ∈ ds.map (fun d => (app, d)) ↔ k.1 = app ∧ k.2 ∈ ds := by
  rw [List.mem_map]
  constructor
  · rintro ⟨d, mem, rfl⟩
    exact ⟨rfl, mem⟩
  · rintro ⟨rfl, mem⟩
    exact ⟨k.2, mem, rfl⟩

/-- The executed event is settled, the superseded ones are superseded by it. -/
theorem find_settleExec {chosen : Event} (allowed : ExecAllowed s x chosen) :
    (s.settleExec x).events.find k =
      if k = (x.app, x.delivery) then
        some (chosen.settleBy (execStatus x.outcome) x.atMs (some (execRelated x)))
      else if k.1 = x.app ∧ k.2 ∈ x.superseded then
        (s.events.find k).map (.settleBy (.superseded .newerSelected) x.atMs (some x.delivery))
      else s.events.find k := by
  have named : k ∈ x.superseded.map (fun d => (x.app, d)) ↔ k.1 = x.app ∧ k.2 ∈ x.superseded := mem_naming
  unfold settleExec
  dsimp only
  rw [Keyed.Table.find_changeEach_same Event.key_settleBy fun _ => rfl, Keyed.Table.find_change]
  simp only [named]
  by_cases main : k = (x.app, x.delivery)
  · have unnamed : ¬ (k.1 = x.app ∧ k.2 ∈ x.superseded) := by
      rintro ⟨_, mem⟩
      obtain ⟨_, _, other, _⟩ := allowed.replaced k.2 mem
      exact other (congrArg Prod.snd main)
    rw [if_neg unnamed, if_pos main, if_pos main, main, ← event_eq, allowed.found]
    rfl
  · rw [if_neg main, if_neg main]

/-- An event that the decision does not supersede is selected, dismissed or left. -/
theorem find_settleResume (unnamed : ¬ (k.1 = y.app ∧ k.2 ∈ y.superseded.map (·.1))) :
    (s.settleResume y).events.find k =
      if k.1 = y.app ∧ y.selected = some k.2 then (s.events.find k).map (.settle .selected y.atMs)
      else if k.1 = y.app ∧ k.2 ∈ y.dismissed then (s.events.find k).map (.settle .dismissed y.atMs)
      else s.events.find k := by
  have other : ∀ p ∈ y.superseded, (y.app, p.1) ≠ k := by
    rintro p mem rfl
    exact unnamed ⟨rfl, List.mem_map_of_mem mem⟩
  have picked : k ∈ y.selected.toList.map (fun d => (y.app, d)) ↔ k.1 = y.app ∧ y.selected = some k.2 := by
    rw [mem_naming, Option.mem_toList]
  have dropped : k ∈ y.dismissed.map (fun d => (y.app, d)) ↔ k.1 = y.app ∧ k.2 ∈ y.dismissed := mem_naming
  unfold settleResume
  dsimp only
  rw [Keyed.Table.find_changeEach_of_not_mem other,
    Keyed.Table.find_changeEach_same Event.key_settle fun _ => rfl,
    Keyed.Table.find_changeEach_same Event.key_settle fun _ => rfl]
  simp only [picked, dropped]
  split
  · split
    · rw [Option.map_map]; rfl
    · rfl
  · rfl

/-- An event that the decision supersedes is superseded, for one of the reasons given. -/
theorem find_settleResume_superseded (named : k.1 = y.app ∧ k.2 ∈ y.superseded.map (·.1))
    (found : s.events.find k = some e) :
    ∃ why, (k.2, why) ∈ y.superseded ∧ (s.settleResume y).events.find k =
      some (e.settleBy (.superseded why) y.atMs y.selected) := by
  obtain ⟨app, named⟩ := named
  obtain ⟨p, mem, same⟩ := List.mem_map.mp named
  have before : ∃ e', ((s.events.changeEach (fun d => (y.app, d)) (fun _ => .settle .dismissed y.atMs)
      (fun _ => Event.key_settle) y.dismissed).changeEach (fun d => (y.app, d))
      (fun _ => .settle .selected y.atMs) (fun _ => Event.key_settle) y.selected.toList).find k = some e' ∧
        e'.record = e.record := by
    rw [Keyed.Table.find_changeEach_same Event.key_settle fun _ => rfl,
      Keyed.Table.find_changeEach_same Event.key_settle fun _ => rfl, found]
    split <;> split <;> exact ⟨_, rfl, rfl⟩
  obtain ⟨e', before, record⟩ := before
  have key : ∃ p ∈ y.superseded, (fun p : String × SupersededWhy => (y.app, p.1)) p = k :=
    ⟨p, mem, Prod.ext app.symm same⟩
  obtain ⟨⟨d, why⟩, inList, isKey, after⟩ := Keyed.Table.find_changeEach_of_mem
    (g := fun p : String × SupersededWhy => .settleBy (.superseded p.2) y.atMs y.selected)
    (fun _ => Event.key_settleBy) (fun _ _ _ => rfl) key before
  have delivery : d = k.2 := congrArg Prod.snd isKey
  refine ⟨why, delivery ▸ inList, ?_⟩
  unfold settleResume
  dsimp only
  rw [after]
  simp [Event.settleBy, Event.settle, record]

end Effects

end ControlState

end Harpoon.Control
