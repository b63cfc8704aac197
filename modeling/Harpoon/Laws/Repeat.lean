import Harpoon.Laws.Leases

/-!
# A reconciliation that is done again

Once every removal it asked for is confirmed, a reconciliation leaves a ledger **at rest**: of each entry of
an ended deployment nothing is left to decide, or it is a lease that is held back while the deployment's
containers are there. On such a ledger the next reconciliation writes nothing and removes nothing, whatever
the runtime lists.
-/

namespace Harpoon.Deploy

open Interact Process

/-! ## What is left to decide -/

/-- The runtime says that the object is gone. -/
def confirms : Except StepError RemoveResult → Bool
  | .ok .removed | .ok .alreadyAbsent => true
  | .ok (.refused _) | .ok (.conflict _ _) | .error _ => false

/-- Every removal that was asked for was confirmed. -/
def Confirmed (h : History EngineSig) : Prop :=
  ∀ request answer, ⟨.removeResource request, answer⟩ ∈ h → confirms answer = true

/-- Nothing is to be done about the entry. -/
def Entry.Decided (ended : List (DeploymentId × EndState)) (e : Entry) : Prop :=
  (endedAs ended e.deployment).any (needsDecision e) = false

def DecidedAt (ended : List (DeploymentId × EndState)) (l : Ledger) (ref : EntryRef) : Prop :=
  ∃ e, l.find ref.1 ref.2 = some e ∧ e.Decided ended

/-- Of each entry nothing is left to decide, or it is a lease that is held back. -/
def AtRest (ended : List (DeploymentId × EndState)) (l : Ledger) : Prop :=
  ∀ e ∈ l.entries, e.Decided ended ∨ e.key.kind = .portLease ∧ containersSettled l e.deployment = false

/-- Whether every removal so far was confirmed. -/
def confirm (ok : Bool) : Event EngineSig → Bool
  | ⟨.removeResource _, answer⟩ => ok && confirms answer
  | _ => ok

/-- Only the clock is read and records written. -/
def Writing (_ : Watch) : EngineOp → Prop
  | .record _ | .nowMs => True
  | _ => False

section

variable {l : Ledger} {ok : Bool} {ref : EntryRef} {e : Entry} {ended : List (DeploymentId × EndState)}
  {α : Type}

/-- What may be asked is left open. -/
private abbrev whatever : Bool → EngineOp → Prop := fun _ _ => True

theorem confirmed_seen {h : History EngineSig} (confirmed : Confirmed h) : h.seen confirm true = true := by
  induction h with
  | nil => rfl
  | cons ev h ih =>
    have rest := ih fun request answer mem => confirmed request answer (List.mem_cons_of_mem _ mem)
    obtain ⟨op, answer⟩ := ev
    have here : confirm true ⟨op, answer⟩ = true := by
      cases op with
      | removeResource request => exact confirmed request answer List.mem_cons_self
      | _ => rfl
    show History.seen confirm (confirm true ⟨op, answer⟩) h = true
    rw [here]
    exact rest

theorem decided_of_settled (settled : e.isSettled = true) : e.Decided ended := by
  unfold Entry.Decided needsDecision
  cases endedAs ended e.deployment with
  | none => rfl
  | some state => simp [settled]

/-- An entry that is kept has nothing left to decide once it has an id. -/
theorem decided_of_adopted {id : String}
    (kept : (endedAs ended e.deployment).any (shouldClean e.disposition) = false) :
    (e.adopted id).Decided ended := by
  unfold Entry.Decided needsDecision
  have same : endedAs ended (e.adopted id).deployment = endedAs ended e.deployment := rfl
  rw [same]
  cases ending : endedAs ended e.deployment with
  | none => rfl
  | some state =>
    rw [ending] at kept
    have clean : shouldClean e.disposition state = false := kept
    simp [Entry.adopted, clean]

/-- Code that only writes asks for no removal. -/
theorem Meets.quietly {x : Engine Ledger EngineError α} {post : α → Ledger → Prop}
    (h : Meets Watch.see Writing x (fun v l' _ => post v l') (fun _ _ _ => True) l ⟨l, false⟩) :
    Meets confirm whatever x (fun v l' ok' => ok' = ok ∧ post v l') (fun _ _ _ => True) l ok := by
  have sim : Simulates Watch.see Writing confirm whatever fun _ ok' => ok' = ok := by
    refine ⟨fun _ _ _ _ _ => trivial, ?_⟩
    rintro w ok' ⟨op, answer⟩ same allowed
    cases op with
    | record _ | nowMs => exact same
    | _ => cases allowed
  refine (h.simulate sim rfl).mono ?_ fun _ _ _ _ => trivial
  rintro v l' ok' ⟨_, same, left⟩
  exact ⟨same, left⟩

/-! ## One action -/

variable (ended) in
/-- A cleanup that ends in an outcome which settles the entry. -/
theorem bracket_decides {outcome : CleanupOutcome} (sound : l.Sound) (found : l.find ref.1 ref.2 = some e)
    (unsettled : e.isSettled = false) (plain : Ledger.isConflict outcome = false)
    (settles : (e.attempted.finished outcome).isSettled = true) :
    Meets confirm whatever (attempt ref >>= fun _ => settle ref outcome)
      (fun _ l' ok' => ok' = ok ∧ ∃ e', Changed ref l l' e' ∧ e'.Decided ended) (fun _ _ _ => True) l ok := by
  have cleaned : Meets Watch.see Writing (attempt ref >>= fun _ => settle ref outcome)
      (fun _ l' w => Changed ref l l' (e.attempted.finished outcome) ∧ w = ⟨l', false⟩)
      (fun x _ w => Refusal False x w) l ⟨l, false⟩ :=
    bracket_meets (fun _ => trivial) (fun _ _ => trivial) sound found unsettled plain
  refine Meets.quietly (cleaned.mono ?_ fun _ _ _ _ => trivial)
  rintro _ l' _ ⟨changed, _⟩
  exact ⟨_, changed, decided_of_settled settles⟩

variable (ended) in
/-- A removal that is confirmed settles the entry. -/
theorem removeObserved_decides {o : Observed} (sound : l.Sound) (found : l.find ref.1 ref.2 = some e)
    (unsettled : e.isSettled = false) :
    Meets confirm whatever (removeObserved ref o)
      (fun _ l' ok' => ∃ e', Changed ref l l' e' ∧ (ok' = true → ok = true ∧ e'.Decided ended))
      (fun _ _ _ => True) l ok := by
  have tried : Meets confirm whatever (attempt ref) (fun _ l' ok' => ok' = ok ∧ Changed ref l l' e.attempted)
      (fun _ _ _ => True) l ok :=
    Meets.quietly (attempt_meets (fun _ => trivial) (fun _ => trivial) sound found unsettled
      (fun _ changed => changed) fun _ => trivial)
  refine meets_bind.mpr (tried.imp ?_)
  rintro _ l₁ ok₁ ⟨same, first⟩
  rw [same]
  refine meets_bind.mpr (meets_get.mpr ?_)
  simp only [first.found]
  refine meets_bind.mpr (meets_ask.mpr ⟨trivial, fun answer => ?_⟩)
  have finished : Meets confirm whatever (settle ref (outcomeOf e.attempted answer))
      (fun _ l' ok' => ok' = (ok && confirms answer) ∧
        Changed ref l₁ l' (e.attempted.finished (outcomeOf e.attempted answer)))
      (fun _ _ _ => True) l₁ (ok && confirms answer) :=
    Meets.quietly (settle_meets (fun _ => trivial) (fun _ => trivial) first.sound first.found rfl
      outcomeOf_conflict (fun _ changed => changed) fun _ => trivial)
  refine finished.imp ?_
  rintro _ l₂ _ ⟨rfl, second⟩
  refine ⟨_, first.trans second, fun sure => ?_⟩
  obtain ⟨before, gone⟩ := Bool.and_eq_true_iff.mp sure
  refine ⟨before, decided_of_settled ?_⟩
  cases answer with
  | error err => cases gone
  | ok result =>
    cases result with
    | removed | alreadyAbsent => rfl
    | refused _ | conflict _ _ => cases gone

/-- An entry that is only adopted is one that is kept. -/
def OnlyKeeps (ended : List (DeploymentId × EndState)) (l : Ledger) (a : Action) : Prop :=
  ∀ ref o e, a = .adopt ref o → l.find ref.1 ref.2 = some e →
    (endedAs ended e.deployment).any (shouldClean e.disposition) = false

/-- Once its removal is confirmed, an action leaves nothing to decide about its entry. -/
theorem executeAction_decides {a : Action} (sound : l.Sound) (ready : a.Ready l) (keeping : OnlyKeeps ended l a)
    (about : a.target? = some ref) :
    Meets confirm whatever (executeAction a)
      (fun _ l' ok' => ∃ e', Changed ref l l' e' ∧ (ok' = true → ok = true ∧ e'.Decided ended))
      (fun _ _ _ => True) l ok := by
  obtain ⟨e, found, unsettled, noId⟩ := ready ref about
  have bracket : ∀ outcome, Ledger.isConflict outcome = false →
      (e.attempted.finished outcome).isSettled = true →
      Meets confirm whatever
        (attempt ref >>= fun _ => settle ref outcome >>= fun _ => pure ([] : List Observed))
        (fun _ l' ok' => ∃ e', Changed ref l l' e' ∧ (ok' = true → ok = true ∧ e'.Decided ended))
        (fun _ _ _ => True) l ok := by
    intro outcome plain settles
    rw [← bind_assoc]
    refine meets_bind.mpr ((bracket_decides ended sound found unsettled plain settles).imp ?_)
    rintro _ l' ok' ⟨same, e', changed, decided⟩
    exact ⟨e', changed, fun sure => ⟨same ▸ sure, decided⟩⟩
  have adoption : ∀ o : Observed, e.id = none → Meets confirm whatever (adoptEntry ref o)
      (fun _ l' ok' => ok' = ok ∧ Changed ref l l' (e.adopted o.id)) (fun _ _ _ => True) l ok := by
    intro o none
    exact Meets.quietly (adoptEntry_meets (fun _ => trivial) (fun _ => trivial) sound found none
      (fun _ _ changed => changed) (fun _ _ => trivial) fun _ => trivial)
  cases a with
  | reportOnly o why => cases about
  | releaseLease entry | markAbsent entry | refuse entry why => cases about; exact bracket _ rfl rfl
  | adopt entry o =>
    cases about
    refine meets_bind.mpr ((adoption o (noId rfl)).imp ?_)
    rintro _ l' ok' ⟨same, changed⟩
    exact ⟨_, changed, fun sure => ⟨same ▸ sure, decided_of_adopted (keeping ref o e rfl found)⟩⟩
  | remove entry o adopt =>
    cases about
    cases adopt with
    | true =>
      refine meets_bind.mpr ((adoption o (noId rfl)).imp ?_)
      rintro _ l₁ ok₁ ⟨same, first⟩
      rw [same]
      refine meets_bind.mpr ((removeObserved_decides ended first.sound first.found rfl).imp ?_)
      rintro _ l₂ ok' ⟨e', second, decided⟩
      exact ⟨e', first.trans second, decided⟩
    | false =>
      refine meets_bind.mpr ((removeObserved_decides ended sound found unsettled).imp ?_)
      exact fun _ _ _ left => left

/-! ## A plan -/

theorem Changed.decidedAt {l' : Ledger} {e' : Entry} (changed : Changed ref l l' e') (decided : e'.Decided ended) :
    DecidedAt ended l' ref := ⟨e', changed.found, decided⟩

theorem OnlyKeeps.congr {a : Action} {l' : Ledger} (keeping : OnlyKeeps ended l a)
    (same : ∀ ref, a.target? = some ref → l'.find ref.1 ref.2 = l.find ref.1 ref.2) : OnlyKeeps ended l' a := by
  rintro ref o e rfl found
  rw [same ref rfl] at found
  exact keeping ref o e rfl found

/-- The other actions are about other entries. -/
theorem AllReady.unchanged {a b : Action} {actions : List Action} {l' : Ledger} (ready : AllReady l (a :: actions))
    (first : Elsewhere [a] l l') (mem : b ∈ actions) (about : b.target? = some ref) :
    l'.find ref.1 ref.2 = l.find ref.1 ref.2 := by
  refine first ref.1 ref.2 fun c hc here => ?_
  rw [List.mem_singleton.mp hc] at here
  have apart := ready.apart
  rw [List.filterMap_cons_some here] at apart
  exact (List.nodup_cons.mp apart).1 (List.mem_filterMap.mpr ⟨b, mem, about⟩)

/-- Nor do they touch the entry of the first. -/
theorem AllReady.head_unchanged {a : Action} {actions : List Action} {l₁ l' : Ledger} (ready : AllReady l (a :: actions))
    (rest : Elsewhere actions l₁ l') (about : a.target? = some ref) : l'.find ref.1 ref.2 = l₁.find ref.1 ref.2 := by
  refine rest ref.1 ref.2 fun b mem here => ?_
  have apart := ready.apart
  rw [List.filterMap_cons_some about] at apart
  exact (List.nodup_cons.mp apart).1 (List.mem_filterMap.mpr ⟨b, mem, here⟩)

/-- What carrying out a list of actions leaves, if every removal is confirmed: of each action's entry, `left`. -/
structure Carried (actions : List Action) (left : Ledger → EntryRef → Prop) (ok : Bool) (l l' : Ledger) (ok' : Bool) :
    Prop where
  sound : l'.Sound
  elsewhere : Elsewhere actions l l'
  left : ok' = true → ok = true ∧ ∀ a ∈ actions, ∀ ref, a.target? = some ref → left l' ref

variable (ended) in
theorem executeActions_decides {actions : List Action} (sound : l.Sound) (ready : AllReady l actions)
    (keeping : ∀ a ∈ actions, OnlyKeeps ended l a) :
    Meets confirm whatever (executeActions actions) (fun _ => Carried actions (DecidedAt ended) ok l)
      (fun _ _ _ => True) l ok := by
  induction actions generalizing l ok with
  | nil => exact ⟨sound, fun _ _ _ => rfl, fun sure => ⟨sure, fun _ mem => by cases mem⟩⟩
  | cons a actions ih =>
    have first : Meets confirm whatever (executeAction a) (fun _ => Carried [a] (DecidedAt ended) ok l)
        (fun _ _ _ => True) l ok := by
      cases about : a.target? with
      | none =>
        cases a with
        | reportOnly o why =>
          refine meets_pure.mpr ⟨sound, fun _ _ _ => rfl, fun sure => ⟨sure, fun b mem ref here => ?_⟩⟩
          rw [List.mem_singleton.mp mem] at here
          cases here
        | releaseLease _ | markAbsent _ | refuse _ _ | adopt _ _ | remove _ _ _ => cases about
      | some ref =>
        refine (executeAction_decides sound ready.head (keeping a List.mem_cons_self) about).imp ?_
        rintro _ l₁ ok₁ ⟨e', changed, decided⟩
        refine ⟨changed.sound, fun d k other => ?_, fun sure => ⟨(decided sure).1, fun b mem ref' here => ?_⟩⟩
        · exact changed.elsewhere d k fun same => other a List.mem_cons_self (same ▸ about)
        · rw [List.mem_singleton.mp mem, about] at here
          cases here
          exact changed.decidedAt (decided sure).2
    refine meets_bind.mpr (first.imp ?_)
    intro _ l₁ ok₁ done
    obtain ⟨ready₁, _⟩ := ready.tail done.elsewhere
    have keeping₁ : ∀ b ∈ actions, OnlyKeeps ended l₁ b := fun b mem =>
      (keeping b (List.mem_cons_of_mem _ mem)).congr fun ref about => ready.unchanged done.elsewhere mem about
    refine meets_bind.mpr ((ih done.sound ready₁ keeping₁).imp ?_)
    intro _ l₂ ok₂ rest
    refine ⟨rest.sound, done.elsewhere.cons rest.elsewhere, fun sure => ?_⟩
    obtain ⟨sure₁, others⟩ := rest.left sure
    obtain ⟨sure₀, own⟩ := done.left sure₁
    refine ⟨sure₀, fun b mem ref about => ?_⟩
    rcases List.mem_cons.mp mem with rfl | mem
    · obtain ⟨e', found, decided⟩ := own b (List.mem_singleton_self b) ref about
      exact ⟨e', (ready.head_unchanged rest.elsewhere about).trans found, decided⟩
    · exact others b mem ref about

/-! ## The leases -/

theorem containersSettled_iff {d : DeploymentId} (sound : l.Sound) :
    containersSettled l d = true ↔ ∀ k e, k.kind = .container → k.name ≠ restoredContainerName d →
      l.find d k = some e → e.isReleased = true := by
  unfold containersSettled
  rw [List.all_eq_true]
  constructor
  · intro settled k e container other found
    obtain ⟨dep, key⟩ := Prod.mk.inj (Ledger.find_ref found)
    refine settled e (List.mem_filter.mpr ⟨Ledger.find_mem found, ?_⟩)
    simp [show e.deployment = d from dep, show e.key = k from key, container, other]
  · intro settled e mem
    obtain ⟨mem, here⟩ := List.mem_filter.mp mem
    obtain ⟨⟨dep, container⟩, other⟩ : (e.deployment = d ∧ e.key.kind = .container) ∧
        e.key.name ≠ restoredContainerName d := by simpa using here
    exact settled e.key e container other (dep ▸ sound.find_of_mem mem)

/-- Whether a lease is held back depends on containers only. -/
theorem containersSettled_congr {l' : Ledger} {d : DeploymentId} (sound : l.Sound) (sound' : l'.Sound)
    (same : ∀ k, k.kind = .container → l'.find d k = l.find d k) :
    containersSettled l' d = containersSettled l d := by
  rw [Bool.eq_iff_iff, containersSettled_iff sound, containersSettled_iff sound']
  constructor
  · intro settled k e container other found
    exact settled k e container other ((same k container).trans found)
  · intro settled k e container other found
    exact settled k e container other ((same k container).symm.trans found)

/-- Nothing is left to decide about the lease, or it is held back. -/
def LeaseLeft (ended : List (DeploymentId × EndState)) (l : Ledger) (ref : EntryRef) : Prop :=
  DecidedAt ended l ref ∨ containersSettled l ref.1 = false

variable (ended) in
theorem releaseLeases_decides {leases : List Action} (sound : l.Sound) (ready : AllReady l leases)
    (only : ∀ a ∈ leases, ∃ ref : EntryRef, a = .releaseLease ref ∧ ref.2.kind = .portLease) :
    Meets confirm whatever (releaseLeases leases) (fun _ => Carried leases (LeaseLeft ended) ok l)
      (fun _ _ _ => True) l ok := by
  induction leases generalizing l ok with
  | nil => exact ⟨sound, fun _ _ _ => rfl, fun sure => ⟨sure, fun _ mem => by cases mem⟩⟩
  | cons a leases ih =>
    obtain ⟨lease, rfl, kind⟩ := only a List.mem_cons_self
    have rest : ∀ l₁ ok₁, Carried [.releaseLease lease] (LeaseLeft ended) ok l l₁ ok₁ →
        Meets confirm whatever (releaseLeases leases)
          (fun _ => Carried (.releaseLease lease :: leases) (LeaseLeft ended) ok l) (fun _ _ _ => True) l₁ ok₁ := by
      intro l₁ ok₁ done
      have others : ∀ b ∈ leases, ∃ ref : EntryRef, b = .releaseLease ref ∧ ref.2.kind = .portLease :=
        fun b mem => only b (List.mem_cons_of_mem _ mem)
      refine (ih done.sound (ready.tail done.elsewhere).1 others).imp ?_
      intro _ l₂ ok₂ after
      refine ⟨after.sound, done.elsewhere.cons after.elsewhere, fun sure => ?_⟩
      obtain ⟨sure₁, left⟩ := after.left sure
      obtain ⟨sure₀, own⟩ := done.left sure₁
      refine ⟨sure₀, fun b mem ref about => ?_⟩
      rcases List.mem_cons.mp mem with rfl | mem
      · rcases own _ (List.mem_singleton_self _) ref about with ⟨e', found, decided⟩ | unsettled
        · exact .inl ⟨e', (ready.head_unchanged after.elsewhere about).trans found, decided⟩
        · refine .inr ((containersSettled_congr done.sound after.sound fun k container => ?_).trans unsettled)
          refine after.elsewhere ref.1 k fun c mem' here => ?_
          obtain ⟨ref', rfl, isLease⟩ := others c mem'
          cases here
          rw [container] at isLease
          cases isLease
      · exact left b mem ref about
    refine meets_bind.mpr (meets_bind.mpr (meets_get.mpr ?_))
    split
    next settled =>
      refine (executeActions_decides ended sound (.single ready.head) fun b mem => ?_).imp ?_
      · rw [List.mem_singleton.mp mem]
        exact fun _ _ _ adopts => by cases adopts
      · intro _ l₁ ok₁ done
        have leased : Carried [.releaseLease lease] (LeaseLeft ended) ok l l₁ ok₁ :=
          ⟨done.sound, done.elsewhere, fun sure => ⟨(done.left sure).1, fun b mem ref about =>
            .inl ((done.left sure).2 b mem ref about)⟩⟩
        exact meets_bind.mpr ((rest l₁ ok₁ leased).imp fun _ _ _ left => left)
    next unsettled =>
      have held : Carried [.releaseLease lease] (LeaseLeft ended) ok l l ok := by
        refine ⟨sound, fun _ _ _ => rfl, fun sure => ⟨sure, fun b mem ref about => .inr ?_⟩⟩
        rw [List.mem_singleton.mp mem] at about
        cases about
        exact Bool.eq_false_iff.mpr unsettled
      exact meets_pure.mpr (meets_bind.mpr ((rest l ok held).imp fun _ _ _ left => left))

/-! ## What a reconciliation leaves -/

variable {observed : List Observed}

/-- What a plan adopts is kept. -/
theorem plan_onlyKeeps (sound : l.Sound) : ∀ a ∈ plan l observed ended, OnlyKeeps ended l a := by
  rintro _ mem ref o e rfl found
  rcases mem_plan mem with ⟨e', mem', state, ending, proposed⟩ | ⟨o', _, report⟩
  · cases (planEntry_planned proposed).1 with
    | adopt clean noId hit ours =>
      obtain rfl : e' = e := Option.some.inj ((sound.find_of_mem mem').symm.trans found)
      rw [ending]
      exact clean
  · cases report

/-- A reconciliation whose removals are all confirmed leaves the ledger at rest. -/
theorem reconcileListed_rests (sound : l.Sound) :
    Meets confirm whatever (reconcileListed ended (.ok observed))
      (fun _ l' ok' => ok' = true → l'.Sound ∧ AtRest ended l') (fun _ _ _ => True) l ok := by
  have ready := plan_ready sound observed ended
  refine meets_bind.mpr (meets_get.mpr ?_)
  rw [List.partition_eq_filter_filter]
  refine meets_bind.mpr ((executeActions_decides ended sound (ready.sublist List.filter_sublist)
    fun a mem => plan_onlyKeeps sound a (List.mem_filter.mp mem).1).imp ?_)
  intro _ l₁ ok₁ objects
  have leases := planned_leases_ready ready objects.elsewhere
  refine meets_bind.mpr ((releaseLeases_decides ended objects.sound leases fun a mem => ?_).imp ?_)
  · obtain ⟨planned, lease⟩ := List.mem_filter.mp mem
    cases a with
    | releaseLease ref => exact ⟨ref, rfl, (plan_lease planned rfl).mp rfl⟩
    | reportOnly _ _ | adopt _ _ | remove _ _ _ | refuse _ _ | markAbsent _ => cases lease
  · intro _ l₂ ok₂ released sure
    obtain ⟨sure₁, leasesLeft⟩ := released.left sure
    obtain ⟨_, objectsLeft⟩ := objects.left sure₁
    refine ⟨released.sound, fun e mem => ?_⟩
    have found := released.sound.find_of_mem mem
    by_cases planned : ∃ a ∈ plan l observed ended, a.target? = some e.ref
    · obtain ⟨a, inPlan, about⟩ := planned
      cases lease : a.isReleaseLease with
      | true =>
        have kind : e.key.kind = .portLease := (plan_lease inPlan about).mp lease
        rcases leasesLeft a (List.mem_filter.mpr ⟨inPlan, lease⟩) e.ref about with ⟨e', found', decided⟩ | held
        · cases found.symm.trans found'
          exact .inl decided
        · exact .inr ⟨kind, held⟩
      | false =>
        obtain ⟨e', found', decided⟩ := objectsLeft a (List.mem_filter.mpr ⟨inPlan, congrArg not lease⟩) e.ref about
        -- The leases do not touch what an object's action left.
        have same : l₂.find e.ref.1 e.ref.2 = l₁.find e.ref.1 e.ref.2 := by
          refine released.elsewhere _ _ fun b mem' about' => ?_
          obtain ⟨inPlan', lease'⟩ := List.mem_filter.mp mem'
          have isLease := (plan_lease inPlan about).mpr ((plan_lease inPlan' about').mp lease')
          rw [lease] at isLease
          cases isLease
        cases (found.symm.trans same).trans found'
        exact .inl decided
    · -- No action was about the entry, so it is as it was, and nothing was due.
      have untouched : ∀ a ∈ plan l observed ended, a.target? ≠ some e.ref := fun a inPlan about =>
        planned ⟨a, inPlan, about⟩
      have sameObjects := objects.elsewhere _ _ fun a mem' => untouched a (List.mem_filter.mp mem').1
      have sameLeases := released.elsewhere _ _ fun a mem' => untouched a (List.mem_filter.mp mem').1
      have before : l.find e.ref.1 e.ref.2 = some e := (sameLeases.trans sameObjects).symm.trans found
      refine .inl ?_
      unfold Entry.Decided
      cases ending : endedAs ended e.deployment with
      | none => rfl
      | some state =>
        cases needs : needsDecision e state with
        | false => exact needs
        | true =>
          obtain ⟨a, _, one⟩ := plan_one observed sound.unique (Ledger.find_mem before) ending needs
          obtain ⟨inPlan, about⟩ := List.mem_filter.mp (one ▸ List.mem_singleton_self a)
          exact absurd (of_decide_eq_true about) (untouched a inPlan)

/-! ## At rest -/

/-- What is planned of a ledger at rest is a report, or the release of a lease that is held back. -/
theorem AtRest.planned {a : Action} (rest : AtRest ended l) (mem : a ∈ plan l observed ended) :
    (∃ o why, a = .reportOnly o why) ∨ ∃ ref, a = .releaseLease ref ∧ containersSettled l ref.1 = false := by
  rcases mem_plan mem with ⟨e, inside, state, ending, proposed⟩ | ⟨o, _, rfl⟩
  · obtain ⟨planned, needs, lease⟩ := planEntry_planned proposed
    rcases rest e inside with decided | ⟨kind, held⟩
    · unfold Entry.Decided at decided
      rw [ending] at decided
      exact absurd (needs.symm.trans decided) (by decide)
    · have isLease := lease.mpr kind
      cases planned with
      | releaseLease _ => exact .inr ⟨_, rfl, held⟩
      | remove _ _ _ | adopt _ _ _ _ | refuse _ _ | markAbsent _ => cases isLease
  · exact .inl ⟨o, _, rfl⟩

theorem executeActions_reports {actions : List Action} (reports : ∀ a ∈ actions, ∃ o why, a = .reportOnly o why) :
    ∃ reported, (executeActions actions).toProgram l = .done (.ok reported, l) := by
  induction actions with
  | nil => exact ⟨[], rfl⟩
  | cons a actions ih =>
    obtain ⟨o, why, rfl⟩ := reports a List.mem_cons_self
    obtain ⟨reported, rest⟩ := ih fun b mem => reports b (List.mem_cons_of_mem _ mem)
    refine ⟨o :: reported, ?_⟩
    show ((executeActions actions) >>= fun more => pure ([o] ++ more)).toProgram l = _
    rw [toProgram_bind, rest]
    rfl

theorem releaseLeases_held_back {leases : List Action}
    (held : ∀ a ∈ leases, ∃ ref, a = .releaseLease ref ∧ containersSettled l ref.1 = false) :
    (releaseLeases leases).toProgram l = .done (.ok [], l) := by
  induction leases with
  | nil => rfl
  | cons a leases ih =>
    obtain ⟨ref, rfl, unsettled⟩ := held a List.mem_cons_self
    have rest := ih fun b mem => held b (List.mem_cons_of_mem _ mem)
    have first : (releaseIfSettled (.releaseLease ref)).toProgram l = .done (.ok [], l) := by
      have reads : (get : Engine Ledger EngineError Ledger).toProgram l = .done (.ok l, l) := rfl
      unfold releaseIfSettled
      rw [toProgram_bind, reads]
      show (if (some ref).any (fun entry => containersSettled l entry.1) then executeActions [.releaseLease ref]
        else pure []).toProgram l = _
      rw [Option.any_some, unsettled]
      rfl
    unfold releaseLeases
    rw [toProgram_bind, first, Program.done_bind]
    dsimp only
    rw [toProgram_bind, rest]
    rfl

/-- A reconciliation of a ledger at rest asks nothing more, once the runtime is listed. -/
theorem AtRest.reconcileListed (rest : AtRest ended l) (observed : List Observed) :
    ∃ reported, (reconcileListed ended (.ok observed)).toProgram l = .done (.ok reported, l) := by
  have reads : (get : Engine Ledger EngineError Ledger).toProgram l = .done (.ok l, l) := rfl
  have objects : ∃ reported, (executeActions ((plan l observed ended).filter (not ∘ Action.isReleaseLease))).toProgram l =
      .done (.ok reported, l) := by
    refine executeActions_reports fun a mem => ?_
    obtain ⟨inPlan, object⟩ := List.mem_filter.mp mem
    rcases rest.planned inPlan with report | ⟨ref, rfl, _⟩
    · exact report
    · cases object
  obtain ⟨reported, objects⟩ := objects
  have leases : (releaseLeases ((plan l observed ended).filter Action.isReleaseLease)).toProgram l =
      .done (.ok [], l) := by
    refine releaseLeases_held_back fun a mem => ?_
    obtain ⟨inPlan, lease⟩ := List.mem_filter.mp mem
    rcases rest.planned inPlan with ⟨o, why, rfl⟩ | held
    · cases lease
    · exact held
  refine ⟨reported ++ [], ?_⟩
  unfold Deploy.reconcileListed
  rw [toProgram_bind, reads, Program.done_bind]
  dsimp only
  rw [List.partition_eq_filter_filter]
  dsimp only
  rw [toProgram_bind, objects, Program.done_bind]
  dsimp only
  rw [toProgram_bind, leases]
  rfl

/-- First the runtime is listed. -/
theorem follows_reconcile {answer : Except StepError (List Observed)} {h : History EngineSig}
    {q : Program EngineSig (Except EngineError (List Observed) × Ledger)} :
    Program.Follows ((reconcile ended).toProgram l) (⟨.listResources, answer⟩ :: h) q ↔
      Program.Follows ((reconcileListed ended answer).toProgram l) h q := follows_after

end

/-- **A reconciliation is idempotent.** From every reachable ledger: once a reconciliation was completed,
with the runtime listed and every removal confirmed, the next one asks for the listing and for nothing else,
whatever the runtime lists by then. It calls no removal, writes no record and leaves the ledger as it is. -/
theorem reconcile_again {promise : History EngineSig → Prop} {l l' : Ledger} {ended : List (DeploymentId × EndState)}
    {h : History EngineSig} {reported observed observed' : List Observed}
    (reachable : ReachableLedger promise l)
    (first : Program.Follows ((reconcile ended).toProgram l) (⟨.listResources, .ok observed⟩ :: h)
      (.done (.ok reported, l')))
    (confirmed : Confirmed h) {h' : History EngineSig}
    {q : Program EngineSig (Except EngineError (List Observed) × Ledger)}
    (second : Program.Follows ((reconcile ended).toProgram l') (⟨.listResources, .ok observed'⟩ :: h') q) :
    h' = [] ∧ ∃ reported', q = .done (.ok reported', l') := by
  rw [follows_reconcile] at first second
  have rests : Meets confirm whatever (reconcileListed ended (.ok observed))
      (fun _ l' ok' => ok' = true → l'.Sound ∧ AtRest ended l') (fun _ _ _ => True) l true :=
    reconcileListed_rests reachable.sound
  obtain ⟨_, rest⟩ := rests.ended first (confirmed_seen confirmed)
  obtain ⟨reported', ended'⟩ := rest.reconcileListed observed'
  rw [ended'] at second
  obtain ⟨none, left⟩ := second.done_inv
  exact ⟨none, reported', left⟩

/-! ### A container that is removed -/

namespace UnlistedRuntime

/-- The container of the preliminary check, as the runtime lists it. -/
def container : Observed := ⟨.container, "hp-3-check", "2f", Labels.forDeployment app dep⟩

def asksRemoval : EngineOp → Bool
  | .removeResource _ => true
  | _ => false

end UnlistedRuntime

open UnlistedRuntime in
theorem reconcile_again_cleaned :
    ∃ h reported l', Program.Follows ((reconcile ended).toProgram created) (⟨.listResources, .ok [container]⟩ :: h)
        (.done (.ok reported, l')) ∧
      h.any (fun e => asksRemoval e.op) = true ∧
      ∀ h' q, Program.Follows ((reconcile ended).toProgram l') (⟨.listResources, .ok []⟩ :: h') q → h' = [] := by
  have run := Program.play_follows (obliging (.ok [container]))
    ((reconcileListed ended (.ok [container])).toProgram created)
  have answers := fun e => @Program.play_answers EngineSig _ (obliging (.ok [container]))
    ((reconcileListed ended (.ok [container])).toProgram created) e
  have completed : (((reconcileListed ended (.ok [container])).toProgram created).play
      (obliging (.ok [container]))).2.1.isOk = true := by decide +kernel
  have removes : (((reconcileListed ended (.ok [container])).toProgram created).play
      (obliging (.ok [container]))).1.any (fun e => asksRemoval e.op) = true := by decide +kernel
  generalize ((reconcileListed ended (.ok [container])).toProgram created).play (obliging (.ok [container])) = played
    at run answers completed removes
  obtain ⟨h, ⟨e⟩ | ⟨reported⟩, l'⟩ := played
  · cases completed
  · have confirmed : Confirmed h := by
      intro request answer mem
      have removed : answer = .ok .removed := answers _ mem
      rw [removed]
      rfl
    have first : Program.Follows ((reconcile ended).toProgram created) (⟨.listResources, .ok [container]⟩ :: h)
      (.done (.ok reported, l')) := follows_reconcile.mpr run
    exact ⟨h, reported, l', first, removes, fun h' q second =>
      (reconcile_again created_reachable first confirmed second).1⟩

end Harpoon.Deploy
