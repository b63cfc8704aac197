import Harpoon.Laws.Reachable

/-!
# Which records of a cleanup the ledger accepts

The planner and the ledger's rules are written separately. What the ledger may refuse of a plan is
one kind of record only: the receipt by which an action adopts an object for an entry that has no id.
It is accepted while the entry is still intended, and refused once a cleanup of the entry failed.
-/

namespace Harpoon.Deploy

open Interact Process

/-- Does the action record an id first? -/
def Action.adopts : Action → Bool
  | .adopt _ _ => true
  | .remove _ _ first => first
  | _ => false

/-- The action is about an entry that is not settled, and adopts only if it has no id. -/
def Action.Ready (l : Ledger) (a : Action) : Prop :=
  ∀ ref, a.target? = some ref → ∃ e, l.find ref.1 ref.2 = some e ∧ e.isSettled = false ∧
    (a.adopts = true → e.id = none)

/-- If the action adopts, it does so for an entry that is still intended. -/
def Action.Acceptable (l : Ledger) (a : Action) : Prop :=
  a.adopts = true → ∀ ref e, a.target? = some ref → l.find ref.1 ref.2 = some e → e.state = .intended

/-- How cleanup code may end: a write was lost, or the ledger refused one because of `bad`. -/
def Refusal (bad : Prop) : EngineError → Watch → Prop
  | .journal _, w => w.lost = true
  | .ledger _, _ => bad
  | .transition _, _ => False

theorem Refusal.imp {bad bad' : Prop} {x : EngineError} {w : Watch} (h : Refusal bad x w)
    (more : bad → bad') : Refusal bad' x w := by
  cases x with
  | journal j => exact h
  | ledger e => exact more h
  | transition t => exact h

section

variable {l : Ledger} {lost : Bool} {ref : EntryRef} {e : Entry} {bad : Prop}

/-- No rule but that of the ledger. -/
private abbrev anything : Watch → EngineOp → Prop := fun _ _ => True

/-- A cleanup of one entry that is not settled: nothing is refused. -/
theorem bracket_meets {rule : Watch → EngineOp → Prop} {outcome : CleanupOutcome} (free : ∀ w, rule w .nowMs)
    (writes : ∀ w r, rule w (.record r)) (sound : l.Sound) (found : l.find ref.1 ref.2 = some e)
    (unsettled : e.isSettled = false) (plain : Ledger.isConflict outcome = false) :
    Meets Watch.see rule (attempt ref >>= fun _ => settle ref outcome)
      (fun _ l' w => Changed ref l l' (e.attempted.finished outcome) ∧ w = ⟨l', lost⟩)
      (fun x _ w => Refusal bad x w) l ⟨l, lost⟩ := by
  refine meets_bind.mpr (attempt_meets free (fun _ => writes _ _) sound found unsettled
    (fun l₁ first => ?_) fun _ => rfl)
  refine settle_meets free (fun _ => writes _ _) first.sound first.found rfl ?_
    (fun l₂ second => ⟨first.trans second, rfl⟩) fun _ => rfl
  intro conflict
  rw [plain] at conflict; cases conflict

theorem outcomeOf_conflict {answer : Except StepError RemoveResult}
    (conflict : Ledger.isConflict (outcomeOf e answer) = true) : Ledger.mayConflict e = true := by
  unfold outcomeOf at conflict
  split at conflict <;> try cases conflict
  split at conflict
  next may => exact may
  next => cases conflict

/-- A removal of an entry that is not settled: nothing is refused, whatever the runtime answers. -/
theorem removeObserved_meets {o : Observed} (sound : l.Sound) (found : l.find ref.1 ref.2 = some e)
    (unsettled : e.isSettled = false) :
    Meets Watch.see anything (removeObserved ref o)
      (fun _ l' w => (∃ e', Changed ref l l' e') ∧ w = ⟨l', lost⟩)
      (fun x _ w => Refusal bad x w) l ⟨l, lost⟩ := by
  refine meets_bind.mpr (attempt_meets (fun _ => trivial) (fun _ => trivial) sound found unsettled
    (fun l₁ first => ?_) fun _ => rfl)
  refine meets_bind.mpr (meets_get.mpr ?_)
  simp only [first.found]
  refine meets_bind.mpr (meets_ask.mpr ⟨trivial, fun answer => ?_⟩)
  exact settle_meets (fun _ => trivial) (fun _ => trivial) first.sound first.found rfl
    outcomeOf_conflict (fun l₂ second => ⟨⟨_, first.trans second⟩, rfl⟩) fun _ => rfl

/-- One action: it ends normally only if it is acceptable, and is refused only if it is not. -/
theorem executeAction_meets {a : Action} (sound : l.Sound) (about : a.target? = some ref)
    (found : l.find ref.1 ref.2 = some e) (unsettled : e.isSettled = false)
    (noId : a.adopts = true → e.id = none) :
    Meets Watch.see anything (executeAction a)
      (fun _ l' w => (a.adopts = true → e.state = .intended) ∧ (∃ e', Changed ref l l' e') ∧
        w = ⟨l', lost⟩)
      (fun x _ w => Refusal (a.adopts = true ∧ e.state ≠ .intended) x w) l ⟨l, lost⟩ := by
  have bracket : ∀ outcome, Ledger.isConflict outcome = false → a.adopts = false →
      Meets Watch.see anything
        (attempt ref >>= fun _ => settle ref outcome >>= fun _ => pure ([] : List Observed))
        (fun _ l' w => (a.adopts = true → e.state = .intended) ∧ (∃ e', Changed ref l l' e') ∧
          w = ⟨l', lost⟩)
        (fun x _ w => Refusal (a.adopts = true ∧ e.state ≠ .intended) x w) l ⟨l, lost⟩ := by
    intro outcome plain keeps
    rw [← bind_assoc]
    refine meets_bind.mpr ((bracket_meets (fun _ => trivial) (fun _ _ => trivial) sound found
      unsettled plain).imp ?_)
    rintro _ l' w ⟨changed, rfl⟩
    exact ⟨fun adopts => absurd (keeps.symm.trans adopts) Bool.false_ne_true, ⟨_, changed⟩, rfl⟩
  cases a with
  | reportOnly o why => cases about
  | releaseLease entry | markAbsent entry | refuse entry why =>
    cases about; exact bracket _ rfl rfl
  | adopt entry o =>
    cases about
    refine meets_bind.mpr (adoptEntry_meets (fun _ => trivial) (fun _ => trivial) sound found
      (noId rfl) ?_ (fun other x => ⟨rfl, other⟩) fun _ => rfl)
    exact fun l' intended changed => ⟨fun _ => intended, ⟨_, changed⟩, rfl⟩
  | remove entry o adopt =>
    cases about
    cases adopt with
    | true =>
      refine meets_bind.mpr (adoptEntry_meets (fun _ => trivial) (fun _ => trivial) sound found
        (noId rfl) (fun l₁ intended first => ?_) (fun other x => ⟨rfl, other⟩) fun _ => rfl)
      refine meets_bind.mpr ((removeObserved_meets first.sound first.found rfl).imp ?_)
      rintro _ l₂ w ⟨⟨e₂, second⟩, rfl⟩
      exact ⟨fun _ => intended, ⟨e₂, first.trans second⟩, rfl⟩
    | false =>
      refine meets_bind.mpr ((removeObserved_meets sound found unsettled).imp ?_)
      rintro _ l₂ w ⟨changed, rfl⟩
      exact ⟨fun adopts => (nomatch adopts), changed, rfl⟩

/-- The ledgers agree about every entry that no action of the list is about. -/
def Elsewhere (actions : List Action) (l l' : Ledger) : Prop :=
  ∀ d k, (∀ a ∈ actions, a.target? ≠ some (d, k)) → l'.find d k = l.find d k

theorem Action.acceptable_iff {a : Action} (about : a.target? = some ref)
    (found : l.find ref.1 ref.2 = some e) :
    a.Acceptable l ↔ (a.adopts = true → e.state = .intended) := by
  constructor
  · exact fun h adopts => h adopts ref e about found
  · intro h adopts ref' e' about' found'
    obtain rfl := Option.some.inj (about.symm.trans about')
    obtain rfl := Option.some.inj (found.symm.trans found')
    exact h adopts

theorem executeAction_ready {a : Action} (sound : l.Sound) (ready : a.Ready l) :
    Meets Watch.see anything (executeAction a)
      (fun _ l' w => a.Acceptable l ∧ l'.Sound ∧ Elsewhere [a] l l' ∧ w = ⟨l', lost⟩)
      (fun x _ w => Refusal (¬ a.Acceptable l) x w) l ⟨l, lost⟩ := by
  cases about : a.target? with
  | none =>
    cases a with
    | reportOnly o why => exact ⟨fun adopts => (nomatch adopts), sound, fun _ _ _ => rfl, rfl⟩
    | releaseLease _ | markAbsent _ | refuse _ _ | adopt _ _ | remove _ _ _ => cases about
  | some ref =>
    obtain ⟨e, found, unsettled, noId⟩ := ready ref about
    refine (executeAction_meets sound about found unsettled noId).mono ?_ ?_
    · rintro _ l' w ⟨intended, ⟨e', changed⟩, rfl⟩
      refine ⟨(Action.acceptable_iff about found).mpr intended, changed.sound, ?_, rfl⟩
      intro d k other
      exact changed.elsewhere d k fun same => other a List.mem_cons_self (same ▸ about)
    · intro x l' w refusal
      refine refusal.imp fun ⟨adopts, other⟩ acceptable => other ?_
      exact (Action.acceptable_iff about found).mp acceptable adopts

/-- The actions are about entries that are not settled, each about a different one. -/
structure AllReady (l : Ledger) (actions : List Action) : Prop where
  ready : ∀ a ∈ actions, a.Ready l
  apart : (actions.filterMap Action.target?).Nodup

/-- Ledgers that agree about the entry of an action agree about the action. -/
theorem Action.ready_congr {a : Action} {l' : Ledger}
    (same : ∀ ref, a.target? = some ref → l'.find ref.1 ref.2 = l.find ref.1 ref.2) :
    (a.Ready l' ↔ a.Ready l) ∧ (a.Acceptable l' ↔ a.Acceptable l) := by
  refine ⟨⟨fun h ref about => ?_, fun h ref about => ?_⟩,
    ⟨fun h adopts ref e about => ?_, fun h adopts ref e about => ?_⟩⟩
  · rw [← same ref about]; exact h ref about
  · rw [same ref about]; exact h ref about
  · rw [← same ref about]; exact h adopts ref e about
  · rw [same ref about]; exact h adopts ref e about

theorem AllReady.head {a : Action} {actions : List Action} (h : AllReady l (a :: actions)) :
    a.Ready l := h.ready a List.mem_cons_self

/-- After the first action the others are as they were. -/
theorem AllReady.tail {a : Action} {actions : List Action} {l' : Ledger}
    (h : AllReady l (a :: actions)) (elsewhere : Elsewhere [a] l l') :
    AllReady l' actions ∧ ∀ b ∈ actions, (b.Acceptable l' ↔ b.Acceptable l) := by
  have same : ∀ b ∈ actions, ∀ ref, b.target? = some ref → l'.find ref.1 ref.2 = l.find ref.1 ref.2 := by
    intro b hb ref about
    refine elsewhere ref.1 ref.2 fun c hc here => ?_
    rw [List.mem_singleton.mp hc] at here
    have apart := h.apart
    rw [List.filterMap_cons_some here] at apart
    exact (List.nodup_cons.mp apart).1 (List.mem_filterMap.mpr ⟨b, hb, about⟩)
  refine ⟨⟨fun b hb => ?_, ?_⟩, fun b hb => (Action.ready_congr (same b hb)).2⟩
  · exact (Action.ready_congr (same b hb)).1.mpr (h.ready b (List.mem_cons_of_mem _ hb))
  · exact ((List.sublist_cons_self a actions).filterMap _).nodup h.apart

theorem Elsewhere.cons {a : Action} {actions : List Action} {l' l'' : Ledger}
    (first : Elsewhere [a] l l') (rest : Elsewhere actions l' l'') :
    Elsewhere (a :: actions) l l'' := by
  intro d k other
  rw [rest d k fun b hb => other b (List.mem_cons_of_mem _ hb)]
  exact first d k fun b hb => other b (List.mem_singleton.mp hb ▸ List.mem_cons_self)

/-- A list of actions: it ends normally only if all are acceptable, and is refused only if one is
not. -/
theorem executeActions_meets {actions : List Action} (sound : l.Sound) (ready : AllReady l actions) :
    Meets Watch.see anything (executeActions actions)
      (fun _ l' w => (∀ a ∈ actions, a.Acceptable l) ∧ l'.Sound ∧ Elsewhere actions l l' ∧
        w = ⟨l', lost⟩)
      (fun x _ w => Refusal (¬ ∀ a ∈ actions, a.Acceptable l) x w) l ⟨l, lost⟩ := by
  induction actions generalizing l with
  | nil => exact ⟨fun _ h => (nomatch h), sound, fun _ _ _ => rfl, rfl⟩
  | cons a actions ih =>
    refine meets_bind.mpr ((executeAction_ready sound ready.head).mono ?_ ?_)
    · rintro _ l₁ w ⟨acceptable, sound₁, first, rfl⟩
      obtain ⟨ready₁, same⟩ := ready.tail first
      refine meets_bind.mpr ((ih sound₁ ready₁).mono ?_ ?_)
      · rintro _ l₂ w ⟨acceptable₂, sound₂, rest, rfl⟩
        refine ⟨fun b hb => ?_, sound₂, first.cons rest, rfl⟩
        rcases List.mem_cons.mp hb with rfl | hb
        · exact acceptable
        · exact (same b hb).mp (acceptable₂ b hb)
      · intro x l₂ w refusal
        refine refusal.imp fun some_bad all => some_bad fun b hb => ?_
        exact (same b hb).mpr (all b (List.mem_cons_of_mem _ hb))
    · exact fun x l₁ w refusal => refusal.imp fun bad all => bad (all a List.mem_cons_self)

theorem AllReady.sublist {actions part : List Action} (h : AllReady l actions)
    (sub : part.Sublist actions) : AllReady l part :=
  ⟨fun a ha => h.ready a (sub.subset ha), (sub.filterMap _).nodup h.apart⟩

theorem AllReady.single {a : Action} (ready : a.Ready l) : AllReady l [a] := by
  refine ⟨fun b hb => List.mem_singleton.mp hb ▸ ready, ?_⟩
  cases about : a.target? with
  | none => simp [about]
  | some ref => simp [about]

/-- Actions that adopt nothing are acceptable. -/
theorem acceptable_of_plain {a : Action} (plain : a.adopts = false) : a.Acceptable l :=
  fun adopts => absurd (plain.symm.trans adopts) Bool.false_ne_true

/-- Releasing leases: nothing is refused. -/
theorem releaseLeases_meets {leases : List Action} (sound : l.Sound) (ready : AllReady l leases)
    (plain : ∀ a ∈ leases, a.adopts = false) :
    Meets Watch.see anything (releaseLeases leases) (fun _ _ _ => True)
      (fun x _ w => Refusal bad x w) l ⟨l, lost⟩ := by
  induction leases generalizing l with
  | nil => exact trivial
  | cons a leases ih =>
    have rest : ∀ l₁, l₁.Sound → Elsewhere [a] l l₁ →
        Meets Watch.see anything (releaseLeases leases) (fun _ _ _ => True)
          (fun x _ w => Refusal bad x w) l₁ ⟨l₁, lost⟩ := fun l₁ sound₁ first =>
      ih sound₁ (ready.tail first).1 fun b hb => plain b (List.mem_cons_of_mem _ hb)
    refine meets_bind.mpr (meets_bind.mpr (meets_get.mpr ?_))
    split
    · refine (executeActions_meets sound (.single ready.head)).mono ?_ ?_
      · rintro _ l₁ w ⟨_, sound₁, first, rfl⟩
        exact meets_bind.mpr ((rest l₁ sound₁ first).imp fun _ _ _ _ => meets_pure.mpr trivial)
      · intro x l₁ w refusal
        refine refusal.imp fun unacceptable => absurd ?_ unacceptable
        intro b hb
        rw [List.mem_singleton.mp hb]
        exact acceptable_of_plain (plain a List.mem_cons_self)
    · refine meets_pure.mpr (meets_bind.mpr ((rest l sound fun _ _ _ => rfl).imp ?_))
      exact fun _ _ _ _ => trivial

/-- A bracketed cleanup of the first action's entry, and then the rest of the code. -/
theorem bracket_then {α : Type} {a : Action} {actions : List Action} {outcome : CleanupOutcome}
    {x : Engine Ledger EngineError α} {post : α → Ledger → Watch → Prop} (sound : l.Sound)
    (ready : AllReady l (a :: actions)) (about : a.target? = some ref)
    (plain : Ledger.isConflict outcome = false)
    (rest : ∀ l₁ e, e.isSettled = false → l.find ref.1 ref.2 = some e →
      Changed ref l l₁ (e.attempted.finished outcome) → AllReady l₁ actions →
      Meets Watch.see anything x post (fun x _ w => Refusal bad x w) l₁ ⟨l₁, lost⟩) :
    Meets Watch.see anything (attempt ref >>= fun _ => settle ref outcome >>= fun _ => x)
      post (fun x _ w => Refusal bad x w) l ⟨l, lost⟩ := by
  obtain ⟨e, found, unsettled, _⟩ := ready.head ref about
  rw [← bind_assoc]
  refine meets_bind.mpr ((bracket_meets (fun _ => trivial) (fun _ _ => trivial) sound found
    unsettled plain).imp ?_)
  rintro _ l₁ w ⟨changed, rfl⟩
  refine rest l₁ e unsettled found changed (ready.tail fun d k other => ?_).1
  exact changed.elsewhere d k fun same => other a List.mem_cons_self (same ▸ about)

/-- The entry is in the ledger, released. -/
def releasedAt (l : Ledger) (ref : EntryRef) : Bool := (l.find ref.1 ref.2).any Entry.isReleased

theorem Changed.releasedAt {l' : Ledger} {e' : Entry} (h : Changed ref l l' e') (other : EntryRef) :
    Deploy.releasedAt l' other = if other = ref then e'.isReleased else Deploy.releasedAt l other := by
  split
  next same => rw [same, Deploy.releasedAt, h.found]; rfl
  next apart => rw [Deploy.releasedAt, h.elsewhere _ _ apart]; rfl

/-- Failing the actions of a plan: nothing is refused, its leases are released, and nothing else is. -/
theorem failActions_meets {why : String} {actions : List Action} (sound : l.Sound)
    (ready : AllReady l actions) :
    Meets Watch.see anything (failActions why actions)
      (fun _ l' w => w = ⟨l', lost⟩ ∧
        (∀ ref, .releaseLease ref ∈ actions → releasedAt l' ref = true) ∧
        ∀ ref, .releaseLease ref ∉ actions → releasedAt l' ref = releasedAt l ref)
      (fun x _ w => Refusal bad x w) l ⟨l, lost⟩ := by
  induction actions generalizing l with
  | nil => exact ⟨rfl, fun _ h => (nomatch h), fun _ _ => rfl⟩
  | cons a actions ih =>
    -- An action that is no lease changes nothing about what is released.
    have skip : ∀ l₁, (∀ ref, a ≠ .releaseLease ref) → (∀ ref, releasedAt l₁ ref = releasedAt l ref) →
        l₁.Sound → AllReady l₁ actions →
        Meets Watch.see anything (failActions why actions)
          (fun _ l' w => w = ⟨l', lost⟩ ∧
            (∀ ref, .releaseLease ref ∈ a :: actions → releasedAt l' ref = true) ∧
            ∀ ref, .releaseLease ref ∉ a :: actions → releasedAt l' ref = releasedAt l ref)
          (fun x _ w => Refusal bad x w) l₁ ⟨l₁, lost⟩ := by
      intro l₁ object same sound₁ ready₁
      refine (ih sound₁ ready₁).imp ?_
      rintro _ l' w ⟨rfl, released, kept⟩
      refine ⟨rfl, fun ref mem => ?_, fun ref none => ?_⟩
      · rcases List.mem_cons.mp mem with here | there
        · exact absurd here.symm (object ref)
        · exact released ref there
      · rw [kept ref fun there => none (List.mem_cons_of_mem _ there), same ref]
    cases a with
    | releaseLease entry =>
      refine bracket_then sound ready rfl rfl fun l₁ e _ _ changed ready₁ => ?_
      refine (ih changed.sound ready₁).imp ?_
      rintro _ l' w ⟨rfl, released, kept⟩
      refine ⟨rfl, fun ref mem => ?_, fun ref none => ?_⟩
      · by_cases there : .releaseLease ref ∈ actions
        · exact released ref there
        · have here : ref = entry := by simpa [there] using mem
          rw [kept ref there, changed.releasedAt, if_pos here]
          rfl
      · have other : ref ≠ entry := fun same => none (same ▸ List.mem_cons_self)
        rw [kept ref fun there => none (List.mem_cons_of_mem _ there), changed.releasedAt, if_neg other]
    | markAbsent entry =>
      refine bracket_then sound ready rfl rfl fun l₁ e unsettled found changed ready₁ => ?_
      refine skip l₁ (fun _ h => (nomatch h)) (fun ref => ?_) changed.sound ready₁
      rw [changed.releasedAt]
      split
      next same =>
        rw [releasedAt, same, found]
        exact (Bool.or_eq_false_iff.mp unsettled).1.symm
      next => rfl
    | reportOnly _ _ | adopt _ _ | refuse _ _ | remove _ _ _ =>
      exact skip l (fun _ h => (nomatch h)) (fun _ => rfl) sound (ready.tail fun _ _ _ => rfl).1

/-- Failing the targets of the preliminary check: nothing is refused. -/
theorem failTargets_meets {why : String} {actions : List Action} (sound : l.Sound)
    (ready : AllReady l actions) :
    Meets Watch.see anything (Run.failTargets why actions) (fun _ _ _ => True)
      (fun x _ w => Refusal bad x w) l ⟨l, lost⟩ := by
  induction actions generalizing l with
  | nil => exact trivial
  | cons a actions ih =>
    have execute : a.adopts = false →
        Meets Watch.see anything (executeActions [a] >>= fun _ => Run.failTargets why actions)
          (fun _ _ _ => True) (fun x _ w => Refusal bad x w) l ⟨l, lost⟩ := by
      intro plain
      refine meets_bind.mpr ((executeActions_meets sound (.single ready.head)).mono ?_ ?_)
      · rintro _ l₁ w ⟨_, sound₁, first, rfl⟩
        exact ih sound₁ (ready.tail first).1
      · intro x l₁ w refusal
        refine refusal.imp fun unacceptable => absurd ?_ unacceptable
        intro b hb
        rw [List.mem_singleton.mp hb]
        exact acceptable_of_plain plain
    cases a with
    | markAbsent entry | adopt entry _ | remove entry _ _ =>
      exact bracket_then sound ready rfl rfl fun _ _ _ _ changed ready₁ => ih changed.sound ready₁
    | releaseLease _ | refuse _ _ | reportOnly _ _ => exact execute rfl

end

/-! ## Plans -/

section

variable {l : Ledger} {lost : Bool} {observed : List Observed} {ended : List (DeploymentId × EndState)}
  {a : Action} {e : Entry}

/-- An entry that was never receipted, whose cleanup failed, and which is matched with an object that
is labelled for it: the plan adopts the object, and the ledger refuses the receipt. -/
structure Stranded (ended : List (DeploymentId × EndState)) (observed : List Observed) (e : Entry) :
    Prop where
  ended : (endedAs ended e.deployment).isSome
  noId : e.id = none
  failed : ∃ m, e.state = .cleanupFailed m
  object : e.key.kind ≠ .portLease
  found : ∃ o, foundFor e observed = some o ∧ o.labelledFor e.app e.deployment = true

theorem Planned.adopts {state : EndState} (h : Planned e state observed a) (adopts : a.adopts = true) :
    e.id = none ∧ ∃ o, foundFor e observed = some o ∧ o.labelledFor e.app e.deployment = true := by
  cases h with
  | remove clean found ours => exact ⟨Option.isNone_iff_eq_none.mp adopts, _, found, ours⟩
  | adopt clean noId found ours => exact ⟨noId, _, found, ours⟩
  | releaseLease lease | refuse found foreign | markAbsent absent => cases adopts

/-- Everything a plan proposes is about entries that are not settled, each about another. -/
theorem plan_ready (sound : l.Sound) (observed : List Observed)
    (ended : List (DeploymentId × EndState)) : AllReady l (plan l observed ended) := by
  refine ⟨fun a ha ref about => ?_, ?_⟩
  · rcases mem_plan ha with ⟨e, mem, state, _, proposed⟩ | ⟨o, _, rfl⟩
    · obtain ⟨planned, needs, _⟩ := planEntry_planned proposed
      obtain rfl := Option.some.inj (planned.target?.symm.trans about)
      obtain ⟨released, refused, _⟩ := needsDecision_iff.mp needs
      refine ⟨e, sound.find_of_mem mem, ?_, fun adopts => (planned.adopts adopts).1⟩
      rw [Entry.isSettled, released, refused]
      rfl
    · cases about
  · rw [plan_entries]
    exact ((List.filter_sublist).map _).nodup sound.unique

/-- Without an id, an entry that is not settled is intended or its cleanup failed. -/
theorem Entry.Sound.unidentified (sound : e.Sound) (noId : e.id = none)
    (unsettled : e.isSettled = false) : e.state = .intended ∨ ∃ m, e.state = .cleanupFailed m := by
  cases state : e.state with
  | intended => exact .inl rfl
  | cleanupFailed m => exact .inr ⟨m, rfl⟩
  | created => have := sound.created state; rw [noId] at this; cases this
  | cleanupConflict c m =>
    have := sound.conflict c m state
    simp [Ledger.mayConflict, noId] at this
  | released _ | refused _ =>
    simp [Entry.isSettled, Entry.isReleased, Entry.isRefused, state] at unsettled

/-- Leases are released, and only leases. -/
theorem plan_lease {ref : EntryRef} (mem : a ∈ plan l observed ended) (about : a.target? = some ref) :
    a.isReleaseLease = true ↔ ref.2.kind = .portLease := by
  rcases mem_plan mem with ⟨e, _, state, _, proposed⟩ | ⟨o, _, rfl⟩
  · obtain ⟨planned, _, lease⟩ := planEntry_planned proposed
    obtain rfl := Option.some.inj (planned.target?.symm.trans about)
    exact lease
  · cases about

theorem Action.isReleaseLease_of_adopts (adopts : a.adopts = true) : a.isReleaseLease = false := by
  cases a with
  | releaseLease _ => cases adopts
  | reportOnly _ _ | adopt _ _ | remove _ _ _ | refuse _ _ | markAbsent _ => rfl

/-- The actions of a plan about chosen entries are acceptable exactly when no chosen entry is
stranded. -/
theorem plan_acceptable_iff (sound : l.Sound) (observed : List Observed)
    (ended : List (DeploymentId × EndState)) (chosen : Action → Bool) (picks : Entry → Prop)
    (agree : ∀ e ∈ l.entries, ∀ a, a.target? = some e.ref → a.adopts = true →
      (chosen a = true ↔ picks e)) :
    (∀ a ∈ (plan l observed ended).filter chosen, a.Acceptable l) ↔
      ¬ ∃ e ∈ l.entries, picks e ∧ Stranded ended observed e := by
  constructor
  · rintro acceptable ⟨e, mem, picked, stranded⟩
    obtain ⟨state, ending⟩ := Option.isSome_iff_exists.mp stranded.ended
    obtain ⟨m, failed⟩ := stranded.failed
    have needs : needsDecision e state = true := by
      refine needsDecision_iff.mpr ⟨?_, ?_, .inr stranded.noId⟩
      · rw [Entry.isReleased, failed]
      · rw [Entry.isRefused, failed]
    obtain ⟨a, proposed, one⟩ := plan_one observed sound.unique mem ending needs
    have planned := planEntry_planned proposed
    have here : a ∈ plan l observed ended :=
      (List.mem_filter.mp (one ▸ List.mem_singleton_self a)).1
    obtain ⟨o, found, ours⟩ := stranded.found
    have adopts : a.adopts = true := by
      cases planned.1 with
      | remove _ _ _ => rw [Action.adopts, stranded.noId]; rfl
      | adopt _ _ _ _ => rfl
      | releaseLease lease => exact absurd lease stranded.object
      | refuse found' foreign =>
        rw [found] at found'; cases found'
        rw [ours] at foreign; cases foreign
      | markAbsent absent => rw [found] at absent; cases absent
    have about := planned.1.target?
    have intended := acceptable a (List.mem_filter.mpr ⟨here, (agree e mem a about adopts).mpr picked⟩)
      adopts _ e about (sound.find_of_mem mem)
    rw [failed] at intended
    cases intended
  · intro none_stranded a ha adopts ref e about found
    obtain ⟨here, chosen_⟩ := List.mem_filter.mp ha
    rcases mem_plan here with ⟨e', mem, state, ending, proposed⟩ | ⟨o, _, rfl⟩
    · obtain ⟨planned, needs, lease⟩ := planEntry_planned proposed
      obtain rfl := Option.some.inj (planned.target?.symm.trans about)
      obtain rfl := Option.some.inj ((sound.find_of_mem mem).symm.trans found)
      obtain ⟨noId, o, hit, ours⟩ := planned.adopts adopts
      obtain ⟨released, refused, _⟩ := needsDecision_iff.mp needs
      have unsettled : e'.isSettled = false := by rw [Entry.isSettled, released, refused]; rfl
      rcases (sound.entry e' mem).unidentified noId unsettled with intended | failed
      · exact intended
      · refine absurd ⟨e', mem, (agree e' mem a about adopts).mp chosen_, ?_⟩ none_stranded
        refine ⟨ending ▸ rfl, noId, failed, fun isLease => ?_, o, hit, ours⟩
        cases a with
        | releaseLease _ => cases adopts
        | reportOnly _ _ | adopt _ _ | remove _ _ _ | refuse _ _ | markAbsent _ =>
          exact absurd (lease.mpr isLease) Bool.false_ne_true
    · cases adopts

end

/-! ## Whole reconciliations -/

/-- Surroundings in which every write is acknowledged, and the runtime lists `listed` and removes what
it is asked to. -/
def obliging (listed : Except StepError (List Observed)) : (op : EngineOp) → op.Answer
  | .nowMs => 0
  | .cancel | .acceptsSimulatedEvidence => false
  | .confirm _ | .supportsCutover => true
  | .persist _ | .record _ => .acknowledged
  | .call _ _ => .done ()
  | .result _ => .error (.new "")
  | .listResources => listed
  | .removeResource _ => .ok .removed
  | .pinnedConfig => none

section

variable {l : Ledger} {α : Type} {ended : List (DeploymentId × EndState)}
  {listed : Except StepError (List Observed)} {dep : DeploymentId} {firstNew : Nat}

/-- In obliging surroundings no write is lost. -/
theorem obliging_not_lost {h : History EngineSig} {w : Watch}
    (obliged : ∀ e ∈ h, e.answer = obliging listed e.op) (kept : w.lost = false) :
    (h.seen Watch.see w).lost = false := by
  induction h generalizing w with
  | nil => exact kept
  | cons e h ih =>
    refine ih (fun e he => obliged e (List.mem_cons_of_mem _ he)) ?_
    obtain ⟨op, answer⟩ := e
    have here := obliged ⟨op, answer⟩ List.mem_cons_self
    cases op with
    | record r =>
      have acknowledged : answer = .acknowledged := here
      rw [acknowledged]
      exact kept
    | _ => exact kept

/-- No run of the program is refused a record. -/
def NeverRefused (p : Program EngineSig (Except EngineError α × Ledger)) : Prop :=
  ∀ h x l', ¬ Program.Follows p h (.done (.error (.ledger x), l'))

/-- Code that ends normally only if `good`, and is refused only if not, is never refused exactly if
`good`. -/
theorem neverRefused_iff {x : Engine Ledger EngineError α} {good : Prop}
    (meets : Meets Watch.see anything x (fun _ _ _ => good) (fun e _ w => Refusal (¬ good) e w) l
      ⟨l, false⟩) : NeverRefused (x.toProgram l) ↔ good := by
  constructor
  · intro never
    have run := Program.play_follows (obliging (.ok [])) (x.toProgram l)
    have outcome := Program.Obeys.ended meets run
    have kept : (History.seen Watch.see ⟨l, false⟩
        ((x.toProgram l).play (obliging (.ok []))).1).lost = false :=
      obliging_not_lost (fun e he => Program.play_answers he) rfl
    generalize (x.toProgram l).play (obliging (.ok [])) = played at run outcome kept
    obtain ⟨h, ⟨e⟩ | ⟨value⟩, l'⟩ := played
    · cases e with
      | journal j => exact absurd (kept.symm.trans outcome) Bool.false_ne_true
      | ledger refusal => exact absurd run (never h refusal l')
      | transition t => exact outcome.elim
    · exact outcome
  · intro holds h e l' follows
    exact Program.Obeys.ended meets follows holds

/-- Carrying out the objects of a plan leaves its leases to be released. -/
theorem planned_leases_ready {observed : List Observed} {l' : Ledger}
    (ready : AllReady l (plan l observed ended))
    (elsewhere : Elsewhere ((plan l observed ended).filter fun a => !a.isReleaseLease) l l') :
    AllReady l' ((plan l observed ended).filter Action.isReleaseLease) := by
  have before : AllReady l ((plan l observed ended).filter Action.isReleaseLease) :=
    ready.sublist List.filter_sublist
  refine ⟨fun a ha => (Action.ready_congr fun ref about => ?_).1.mpr (before.ready a ha),
    before.apart⟩
  -- An object's action is about another entry: its key is of another kind.
  obtain ⟨mem, lease⟩ := List.mem_filter.mp ha
  refine elsewhere ref.1 ref.2 fun b hb about' => ?_
  obtain ⟨mem', object⟩ := List.mem_filter.mp hb
  have other := (plan_lease mem' about').mpr ((plan_lease mem about).mp lease)
  simp [other] at object

/-- No entry among the chosen ones is stranded by what the runtime listed. -/
def NoneStranded (l : Ledger) (ended : List (DeploymentId × EndState)) (picks : Entry → Prop)
    (listed : Except StepError (List Observed)) : Prop :=
  ∀ observed, listed = .ok observed → ¬ ∃ e ∈ l.entries, picks e ∧ Stranded ended observed e

/-- A reconciliation, given what the runtime listed. -/
theorem reconcileListed_meets (sound : l.Sound) :
    Meets Watch.see anything (reconcileListed ended listed)
      (fun _ _ _ => NoneStranded l ended (fun _ => True) listed)
      (fun e _ w => Refusal (¬ NoneStranded l ended (fun _ => True) listed) e w) l ⟨l, false⟩ := by
  cases listed with
  | error e =>
    refine meets_bind.mpr (meets_get.mpr (meets_bind.mpr ?_))
    refine (failActions_meets sound (plan_ready sound [] ended)).imp fun _ _ _ _ => ?_
    intro observed listing
    cases listing
  | ok observed =>
    have ready := plan_ready sound observed ended
    have acceptable := plan_acceptable_iff sound observed ended (fun a => !a.isReleaseLease)
      (fun _ => True) fun e _ a _ adopts => by simp [Action.isReleaseLease_of_adopts adopts]
    have listing : NoneStranded l ended (fun _ => True) (.ok observed) ↔
        ¬ ∃ e ∈ l.entries, True ∧ Stranded ended observed e :=
      ⟨fun h => h observed rfl, fun h _ same => by cases same; exact h⟩
    rw [← acceptable] at listing
    refine meets_bind.mpr (meets_get.mpr ?_)
    rw [List.partition_eq_filter_filter]
    refine meets_bind.mpr ((executeActions_meets sound (ready.sublist List.filter_sublist)).mono ?_ ?_)
    · rintro _ l₁ w ⟨all, sound₁, elsewhere, rfl⟩
      have leases := planned_leases_ready ready elsewhere
      refine meets_bind.mpr ((releaseLeases_meets sound₁ leases fun a ha => ?_).imp fun _ _ _ _ => ?_)
      · cases adopts : a.adopts with
        | false => rfl
        | true =>
          have object := Action.isReleaseLease_of_adopts adopts
          rw [(List.mem_filter.mp ha).2] at object
          cases object
      · exact listing.mpr all
    · exact fun e l₁ w refusal => refusal.imp fun bad good => bad (listing.mp good)

/-- The release of the preliminary check's targets, given what the runtime listed. -/
theorem releaseTargets_meets (sound : l.Sound) {targets : List ResourceKey} :
    Meets Watch.see anything (Run.releaseTargets dep targets listed)
      (fun _ _ _ => NoneStranded l [(dep, .succeeded)] (fun e => e.key ∈ targets) listed)
      (fun e _ w =>
        Refusal (¬ NoneStranded l [(dep, .succeeded)] (fun e => e.key ∈ targets) listed) e w)
      l ⟨l, false⟩ := by
  cases listed with
  | error e =>
    refine meets_bind.mpr (meets_get.mpr ?_)
    refine (failTargets_meets sound ((plan_ready sound [] _).sublist List.filter_sublist)).imp ?_
    intro _ _ _ _ observed listing
    cases listing
  | ok observed =>
    have ready := plan_ready sound observed [(dep, .succeeded)]
    have acceptable := plan_acceptable_iff sound observed [(dep, .succeeded)]
      (fun a => a.target?.any fun entry => targets.contains entry.2) (fun e => e.key ∈ targets) fun e _ a about _ => by simp [about, Entry.ref]
    have listing : NoneStranded l [(dep, .succeeded)] (fun e => e.key ∈ targets) (.ok observed) ↔
        ¬ ∃ e ∈ l.entries, e.key ∈ targets ∧ Stranded [(dep, .succeeded)] observed e :=
      ⟨fun h => h observed rfl, fun h _ same => by cases same; exact h⟩
    rw [← acceptable] at listing
    refine meets_bind.mpr (meets_get.mpr (meets_bind.mpr ?_))
    refine (executeActions_meets sound (ready.sublist List.filter_sublist)).mono ?_ ?_
    · rintro _ l₁ w ⟨all, _⟩
      exact listing.mpr all
    · exact fun e l₁ w refusal => refusal.imp fun bad good => bad (listing.mp good)

/-- What a program follows after its first operation was answered. -/
theorem follows_after {S : Signature} {op : S.Op} {next : S.Answer op → Program S α}
    {answer : S.Answer op} {h : History S} {q : Program S α} :
    Program.Follows (.ask op next) (⟨op, answer⟩ :: h) q ↔ Program.Follows (next answer) h q := by
  constructor
  · intro follows; cases follows; assumption
  · exact .step answer

/-- **When a cleanup is refused a record.** From every reachable ledger, whatever the runtime lists
and answers and whichever writes fail, a reconciliation and the release of the preliminary check's
targets are never refused a ledger record exactly if the listing strands no entry: no entry (no
target) that has no id and whose cleanup failed is matched with an object labelled for it. A listing
that failed strands none. -/
theorem cleanup_refused_iff {promise : History EngineSig → Prop}
    (reachable : ReachableLedger promise l) (ended : List (DeploymentId × EndState))
    (listed : Except StepError (List Observed)) (dep : DeploymentId) (firstNew : Nat) :
    ((∀ h x l', ¬ Program.Follows ((reconcile ended).toProgram l) (⟨.listResources, listed⟩ :: h)
        (.done (.error (.ledger x), l'))) ↔
      NoneStranded l ended (fun _ => True) listed) ∧
    ((∀ h x l', ¬ Program.Follows ((Run.releasePreliminary dep firstNew).toProgram l)
        (⟨.listResources, listed⟩ :: h) (.done (.error (.ledger x), l'))) ↔
      NoneStranded l [(dep, .succeeded)]
        (fun e => e.key ∈ Run.preliminaryTargets l dep firstNew) listed) := by
  refine ⟨?_, ?_⟩
  · have first : (reconcile ended).toProgram l =
        .ask .listResources fun answer => (reconcileListed ended answer).toProgram l := rfl
    rw [first]
    simp only [follows_after (S := EngineSig)]
    exact neverRefused_iff (reconcileListed_meets reachable.sound)
  · by_cases empty : (Run.preliminaryTargets l dep firstNew).isEmpty = true
    · -- Without targets nothing is asked.
      have ended : (Run.releasePreliminary dep firstNew).toProgram l = .done (.ok none, l) := by
        show (if _ then _ else _ : Engine Ledger EngineError (Option String)).toProgram l = _
        rw [if_pos empty]
        rfl
      rw [ended, List.isEmpty_iff.mp empty]
      refine iff_of_true (fun _ _ _ follows => (nomatch follows)) ?_
      rintro observed listing ⟨e, mem, target, stranded⟩
      cases target
    · have first : (Run.releasePreliminary dep firstNew).toProgram l =
          .ask .listResources fun answer =>
            (do Run.releaseTargets dep (Run.preliminaryTargets l dep firstNew) answer
                let ledger ← get
                return Run.stuckMessage (Run.stuckTargets ledger dep
                  (Run.preliminaryTargets l dep firstNew)) :
              Engine Ledger EngineError (Option String)).toProgram l := by
        show (if _ then _ else _ : Engine Ledger EngineError (Option String)).toProgram l = _
        rw [if_neg empty]
        rfl
      rw [first]
      simp only [follows_after (S := EngineSig)]
      refine neverRefused_iff (meets_bind.mpr ((releaseTargets_meets reachable.sound).imp ?_))
      exact fun _ _ _ none_stranded => none_stranded

end

/-! ## A stranded image

The process dies in the build, between the intent of the image and its receipt. At the next start the
runtime cannot be listed, so the image has a failed cleanup; at the one after that it is listed, and
it is there. -/

namespace StrandedImage

def app : ApplicationId := ⟨1#128⟩

def dep : DeploymentId := ⟨2#128⟩

def image : ResourceKey := ⟨.image, "harpoon/app:2"⟩

def queued : Deployment := { Deployment.new dep app .manual 0 with status := .queued }

/-- The build records the intent of its image first. -/
def building : (op : EngineOp) → op.Answer
  | .call .build _ => .ask (.intend image .retain) fun _ => .done ()
  | .result .prepareSource => .ok ()
  | op => obliging (.ok []) op

/-- The run, up to the moment the intent is on disk. -/
def cutRun : History EngineSig :=
  (((runDeploymentConfirmed queued ⟨none⟩ .default).play building).1).take 18

def intended : Ledger := ⟨[Ledger.intended image app dep .retain 0]⟩

/-- The deployment was interrupted. -/
def ended : List (DeploymentId × EndState) := (endState .interrupted).toList.map fun e => (dep, e)

/-- The first start: the runtime cannot be listed. -/
def unlisted : History EngineSig :=
  (((reconcile ended).toProgram intended).play (obliging (.error (.new "unreachable")))).1

def stranded : Ledger := intended.absorb (acknowledgedRecords unlisted)

/-- The image, with its deployment's labels. -/
def listedImage : Observed := ⟨.image, image.name, "sha256:2", Labels.forDeployment app dep⟩

theorem intended_reachable : ReachableLedger RestoredRetained intended := by
  obtain ⟨q, follows⟩ := (Program.play_follows building
    (runDeploymentConfirmed queued ⟨none⟩ .default)).take 18
  have start : ReachableLedger RestoredRetained RunConfig.default.priorLedger := .new
  refine .run (h := cutRun) start follows ?_ (.inl (by decide +kernel))
  exact restoredRetained_of_all (by decide +kernel)

theorem stranded_reachable : ReachableLedger RestoredRetained stranded :=
  .reconcile (h := unlisted) intended_reachable (Program.play_follows _ _) (.inl (by decide))

/-- The reconciliation of the second start. -/
def refusedRun : History EngineSig × Except EngineError (List Observed) × Ledger :=
  ((reconcile ended).toProgram stranded).play (obliging (.ok [listedImage]))

/-- A reachable ledger from which a reconciliation fails with a ledger error. -/
theorem reconcile_can_be_refused :
    ¬ ∀ l, ReachableLedger RestoredRetained l → ∀ ended h x l',
      ¬ Program.Follows ((reconcile ended).toProgram l) h (.done (.error (.ledger x), l')) := by
  intro never
  have refused : (match refusedRun.2.1 with
      | .error (.ledger _) => true
      | .error (.journal _) | .error (.transition _) | .ok _ => false) = true := by decide
  have run := Program.play_follows (obliging (.ok [listedImage])) ((reconcile ended).toProgram stranded)
  change Program.Follows _ refusedRun.1 (.done refusedRun.2) at run
  generalize refusedRun = played at refused run
  obtain ⟨h, ⟨e⟩ | ⟨value⟩, l'⟩ := played
  · cases e with
    | ledger x => exact never stranded stranded_reachable ended h x l' run
    | journal j | transition t => cases refused
  · cases refused

/-- The characterization, at that ledger and that listing. -/
theorem cleanup_refused_stranded :
    ¬ ∀ h x l', ¬ Program.Follows ((reconcile ended).toProgram stranded)
      (⟨.listResources, .ok [listedImage]⟩ :: h) (.done (.error (.ledger x), l')) := by
  intro never
  have none_stranded :=
    (cleanup_refused_iff stranded_reachable ended (.ok [listedImage]) dep 0).1.mp never
  refine none_stranded [listedImage] rfl
    ⟨stranded.entries.head (by decide), List.head_mem _, trivial, ?_⟩
  refine ⟨by decide, by decide,
    ⟨"could not list the runtime: unreachable", by decide⟩, by decide,
    listedImage, by decide, by decide⟩

end StrandedImage

end Harpoon.Deploy
