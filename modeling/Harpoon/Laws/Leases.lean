import Harpoon.Laws.Acceptance

/-!
# When a lease is given back

A port must not be offered again while something may still be bound to it, so a reconciliation should
release a lease only once the deployment's containers are gone. It does when the runtime could be
listed. When it could not, the leases are released without a look at the containers: then they are
gone exactly if they were gone before.
-/

namespace Harpoon.Deploy

open Interact Process

/-- The deployment whose lease the record releases. -/
def releasesLease : LedgerRecord → Option DeploymentId
  | .cleanupResult k d .removed _ | .cleanupResult k d .alreadyAbsent _ =>
    if k.kind = .portLease then some d else none
  | _ => none

/-- Every container of the deployment that is not retained is released. -/
def ContainersGone (l : Ledger) (d : DeploymentId) : Prop :=
  ∀ e ∈ l.entries, e.deployment = d → e.key.kind = .container → e.disposition ≠ .retain →
    e.isReleased = true

instance (l : Ledger) (d : DeploymentId) : Decidable (ContainersGone l d) :=
  inferInstanceAs (Decidable (∀ e ∈ l.entries, _ → _ → _ → _))

/-- Along the history, from the ledger `l`, a lease is released only where the containers of its
deployment are gone. -/
def LeasesHeld (l : Ledger) (h : History EngineSig) : Prop :=
  ∀ before r answer rest d, h = before ++ ⟨.record r, answer⟩ :: rest → releasesLease r = some d →
    ContainersGone (l.absorb (acknowledgedRecords before)) d

/-- The same, as a rule of the watch. -/
def LeaseRule (w : Watch) : EngineOp → Prop
  | .record r => ∀ d, releasesLease r = some d → ContainersGone w.ledger d
  | _ => True

instance (w : Watch) : (op : EngineOp) → Decidable (LeaseRule w op)
  | .record r =>
    match h : releasesLease r with
    | none => .isTrue fun _ h' => nomatch h.symm.trans h'
    | some d => decidable_of_iff (ContainersGone w.ledger d)
        ⟨fun gone _ h' => Option.some.inj (h.symm.trans h') ▸ gone, fun rule => rule d h⟩
  | .nowMs | .cancel | .confirm _ | .persist _ | .call _ _ | .result _ | .listResources
  | .removeResource _ | .acceptsSimulatedEvidence | .supportsCutover | .pinnedConfig => .isTrue trivial

/-- The watched ledger is the one the acknowledged records make. -/
theorem watch_ledger (h : History EngineSig) (w : Watch) :
    (h.seen Watch.see w).ledger = w.ledger.absorb (acknowledgedRecords h) := by
  induction h generalizing w with
  | nil => rfl
  | cons e h ih =>
    rw [show History.seen Watch.see w (e :: h) = History.seen Watch.see (w.see e) h from rfl, ih]
    obtain ⟨op, answer⟩ := e
    cases op with
    | record r => cases answer <;> rfl
    | _ => rfl

theorem leasesHeld_iff {l : Ledger} {lost : Bool} {h : History EngineSig} :
    LeasesHeld l h ↔ Lawful Watch.see LeaseRule ⟨l, lost⟩ h := by
  rw [lawful_iff]
  constructor
  · intro held before e rest split
    obtain ⟨op, answer⟩ := e
    cases op with
    | record r =>
      intro d releases
      rw [watch_ledger]
      exact held before r answer rest d split releases
    | _ => trivial
  · intro lawful before r answer rest d split releases
    have allowed := lawful before ⟨.record r, answer⟩ rest split d releases
    rw [watch_ledger] at allowed
    exact allowed

section

variable {l : Ledger} {lost : Bool} {d : DeploymentId} {ref : EntryRef} {e : Entry}
  {observed : List Observed} {ended : List (DeploymentId × EndState)}

/-- A settled deployment's containers are gone: the only one that does not count is retained. -/
theorem gone_of_settled (keeps : l.KeepsRestored) (settled : containersSettled l d = true) :
    ContainersGone l d := by
  intro e mem dep container disposition
  refine List.all_eq_true.mp settled e (List.mem_filter.mpr ⟨mem, ?_⟩)
  have own : e.key.name ≠ restoredContainerName d := fun restored =>
    disposition (keeps e mem container (dep ▸ restored))
  simp [dep, container, own]

/-- What changed is a lease, so the containers are what they were. -/
theorem Changed.container {l' : Ledger} {e' x : Entry} (h : Changed ref l l' e')
    (lease : ref.2.kind = .portLease) (mem : x ∈ l'.entries) (container : x.key.kind = .container) :
    x ∈ l.entries := by
  have other : (x.deployment, x.key) ≠ ref := by
    rintro rfl
    rw [container] at lease
    cases lease
  have found := h.sound.find_of_mem mem
  rw [h.elsewhere _ _ other] at found
  exact Ledger.find_mem found

/-- What changed was not released, so it is none of the containers that are gone. -/
theorem Changed.gone {l' : Ledger} {e' : Entry} (h : Changed ref l l' e')
    (found : l.find ref.1 ref.2 = some e) (live : e.isReleased = false)
    (disposition : e'.disposition = e.disposition) (gone : ContainersGone l d) :
    ContainersGone l' d := by
  intro x mem dep container kept
  have there := h.sound.find_of_mem mem
  by_cases here : (x.deployment, x.key) = ref
  · have same : x = e' := by
      rw [← here] at h
      exact Option.some.inj (there.symm.trans h.found)
    have was : e.ref = x.ref := (Ledger.find_ref found).trans here.symm
    have held := gone e (Ledger.find_mem found) ((congrArg Prod.fst was).trans dep)
      ((congrArg (fun r => r.2.kind) was).trans container) (by rw [← disposition, ← same]; exact kept)
    rw [live] at held; cases held
  · rw [h.elsewhere _ _ here] at there
    exact gone x (Ledger.find_mem there) dep container kept

theorem Changed.keeps {l' : Ledger} {e' : Entry} (h : Changed ref l l' e')
    (lease : ref.2.kind = .portLease) (keeps : l.KeepsRestored) : l'.KeepsRestored :=
  fun x mem container => keeps x (h.container lease mem container) container

/-- A bracketed cleanup, under the rule about leases. -/
theorem bracket_held {outcome : CleanupOutcome} (sound : l.Sound)
    (found : l.find ref.1 ref.2 = some e) (unsettled : e.isSettled = false)
    (plain : Ledger.isConflict outcome = false)
    (allowed : ∀ t d, releasesLease (.cleanupResult ref.2 ref.1 outcome t) = some d →
      ContainersGone l d) :
    Meets Watch.see LeaseRule (attempt ref >>= fun _ => settle ref outcome)
      (fun _ l' w => Changed ref l l' (e.attempted.finished outcome) ∧ w = ⟨l', lost⟩)
      (fun _ _ _ => True) l ⟨l, lost⟩ := by
  have live := (Bool.or_eq_false_iff.mp unsettled).1
  refine meets_bind.mpr (attempt_meets (fun _ => trivial) (fun _ _ h => (nomatch h)) sound found
    unsettled (fun l₁ first => ?_) fun _ => trivial)
  refine settle_meets (fun _ => trivial) (fun t d releases => ?_) first.sound first.found rfl
    (fun h => absurd (plain.symm.trans h) Bool.false_ne_true)
    (fun l₂ second => ⟨first.trans second, rfl⟩) fun _ => trivial
  exact first.gone found live rfl (allowed t d releases)

theorem releasesLease_result {outcome : CleanupOutcome} {t : Nat}
    (releases : releasesLease (.cleanupResult ref.2 ref.1 outcome t) = some d) : d = ref.1 := by
  cases outcome with
  | removed | alreadyAbsent =>
    simp only [releasesLease] at releases
    split at releases <;> cases releases
    rfl
  | failed _ | refused _ | conflict _ _ => cases releases

/-- A lease is released where its deployment's containers are gone. -/
theorem releaseLease_meets (sound : l.Sound) (keeps : l.KeepsRestored)
    (lease : ref.2.kind = .portLease) (ready : (Action.releaseLease ref).Ready l)
    (gone : ContainersGone l ref.1) :
    Meets Watch.see LeaseRule (executeActions [.releaseLease ref])
      (fun _ l' w => l'.Sound ∧ l'.KeepsRestored ∧ Elsewhere [.releaseLease ref] l l' ∧ w = ⟨l', lost⟩)
      (fun _ _ _ => True) l ⟨l, lost⟩ := by
  obtain ⟨e, found, unsettled, _⟩ := ready ref rfl
  have cleaned : Meets Watch.see LeaseRule (attempt ref >>= fun _ => settle ref .removed)
      (fun _ l' w => Changed ref l l' (e.attempted.finished .removed) ∧ w = ⟨l', lost⟩)
      (fun _ _ _ => True) l ⟨l, lost⟩ :=
    bracket_held sound found unsettled rfl fun _ _ releases => releasesLease_result releases ▸ gone
  show Meets _ _ ((attempt ref >>= fun _ => settle ref .removed >>= fun _ => pure []) >>= fun _ => _)
    _ _ _ _
  rw [← bind_assoc]
  refine meets_bind.mpr (meets_bind.mpr (cleaned.imp ?_))
  rintro _ l₂ w ⟨changed, rfl⟩
  refine ⟨changed.sound, changed.keeps lease keeps, fun d k other => changed.elsewhere d k ?_, rfl⟩
  exact fun same => other _ List.mem_cons_self (congrArg some same.symm)

theorem releaseLeases_held {leases : List Action} (sound : l.Sound) (keeps : l.KeepsRestored)
    (ready : AllReady l leases)
    (only : ∀ a ∈ leases, ∃ ref : EntryRef, a = .releaseLease ref ∧ ref.2.kind = .portLease) :
    Meets Watch.see LeaseRule (releaseLeases leases) (fun _ _ _ => True) (fun _ _ _ => True) l
      ⟨l, lost⟩ := by
  induction leases generalizing l with
  | nil => exact trivial
  | cons a leases ih =>
    have rest : ∀ l₁, l₁.Sound → l₁.KeepsRestored → Elsewhere [a] l l₁ →
        Meets Watch.see LeaseRule (releaseLeases leases) (fun _ _ _ => True) (fun _ _ _ => True) l₁
          ⟨l₁, lost⟩ := fun l₁ sound₁ keeps₁ first =>
      ih sound₁ keeps₁ (ready.tail first).1 fun b hb => only b (List.mem_cons_of_mem _ hb)
    obtain ⟨ref, rfl, lease⟩ := only a List.mem_cons_self
    refine meets_bind.mpr (meets_bind.mpr (meets_get.mpr ?_))
    split
    next settled =>
      have gone := gone_of_settled keeps settled
      refine (releaseLease_meets sound keeps lease ready.head gone).imp ?_
      rintro _ l₁ w ⟨sound₁, keeps₁, first, rfl⟩
      refine meets_bind.mpr ((rest l₁ sound₁ keeps₁ first).imp ?_)
      exact fun _ _ _ _ => trivial
    next =>
      refine meets_pure.mpr (meets_bind.mpr ((rest l sound keeps fun _ _ _ => rfl).imp ?_))
      exact fun _ _ _ _ => trivial

theorem releasesLease_kind {r : LedgerRecord} (releases : releasesLease r = some d) :
    r.key.kind = .portLease := by
  cases r with
  | cleanupResult k d' outcome atMs =>
    cases outcome with
    | removed | alreadyAbsent =>
      by_cases lease : k.kind = .portLease
      · exact lease
      · simp [releasesLease, lease] at releases
    | failed _ | refused _ | conflict _ _ => cases releases
  | intent _ _ _ _ _ | receipt _ _ _ _ | cleanupAttempt _ _ _ => cases releases

/-- Records that are no intents keep what is retained of a restoration. -/
theorem Watch.keeps {w : Watch} {ev : Event EngineSig} {writes : LedgerRecord → Prop}
    (noIntent : ∀ r, writes r → r.isIntent = false) (allowed : CleanupOp writes ev.op)
    (keeps : w.ledger.KeepsRestored) : (w.see ev).ledger.KeepsRestored := by
  obtain ⟨op, answer⟩ := ev
  cases op with
  | record r =>
    cases answer with
    | acknowledged =>
      rcases w.ledger.apply_cases r with ⟨_, same⟩ | applied
      · simpa only [Watch.see, Watch.wrote, same] using keeps
      · refine applied.keepsRestored ?_ keeps
        have plain := noIntent r allowed
        cases r with
        | intent _ _ _ _ _ => cases plain
        | receipt _ _ _ _ | cleanupAttempt _ _ _ | cleanupResult _ _ _ _ => rfl
    | failed j stored => exact keeps
  | _ => exact keeps

/-- The objects of a plan are cleaned without releasing a lease. -/
theorem executeObjects_held {actions : List Action} (sound : l.Sound) (keeps : l.KeepsRestored)
    (ready : AllReady l actions)
    (objects : ∀ a ∈ actions, ∀ ref, a.target? = some ref → ref.2.kind ≠ .portLease) :
    Meets Watch.see LeaseRule (executeActions actions)
      (fun _ l' w => l'.Sound ∧ l'.KeepsRestored ∧ Elsewhere actions l l' ∧ w = ⟨l', lost⟩)
      (fun _ _ _ => True) l ⟨l, lost⟩ := by
  have cleans : Cleans (fun r => r.isIntent = false ∧ r.key.kind ≠ .portLease) (executeActions actions) :=
    executeActions_cleans fun a ha ref about r ⟨here, plain⟩ =>
      ⟨plain, fun lease => objects a ha ref about (here ▸ lease)⟩
  have sim : Simulates lose (fun _ => CleanupOp fun r => r.isIntent = false ∧ r.key.kind ≠ .portLease)
      Watch.see LeaseRule fun _ w => w.ledger.KeepsRestored := by
    refine ⟨fun _ w op _ allowed => ?_, fun _ w ev keeps allowed => ?_⟩
    · cases op with
      | record r => exact fun d releases => absurd (releasesLease_kind releases) allowed.2
      | _ => trivial
    · exact Watch.keeps (fun _ h => h.1) allowed keeps
  have framed := cleans.simulate (r := l) (t := ⟨l, lost⟩) sim rfl keeps
  refine ((executeActions_meets sound ready).and framed).mono ?_ fun _ _ _ _ => trivial
  rintro _ l' w ⟨⟨_, sound', elsewhere, rfl⟩, _, _, keeps'⟩
  exact ⟨sound', keeps', elsewhere, rfl⟩

/-- When the runtime could be listed, leases are released only where the containers are gone. -/
theorem reconcile_listed_held (sound : l.Sound) (keeps : l.KeepsRestored) :
    Meets Watch.see LeaseRule (reconcileListed ended (.ok observed)) (fun _ _ _ => True)
      (fun _ _ _ => True) l ⟨l, lost⟩ := by
  have ready := plan_ready sound observed ended
  refine meets_bind.mpr (meets_get.mpr ?_)
  rw [List.partition_eq_filter_filter]
  refine meets_bind.mpr ((executeObjects_held sound keeps (ready.sublist List.filter_sublist)
    fun a ha ref about lease => ?_).imp ?_)
  · obtain ⟨mem, object⟩ := List.mem_filter.mp ha
    simp [(plan_lease mem about).mpr lease] at object
  · rintro _ l₁ w ⟨sound₁, keeps₁, elsewhere, rfl⟩
    have leases := planned_leases_ready ready elsewhere
    refine meets_bind.mpr ((releaseLeases_held sound₁ keeps₁ leases fun a ha => ?_).imp ?_)
    · obtain ⟨mem, lease⟩ := List.mem_filter.mp ha
      cases a with
      | releaseLease ref => exact ⟨ref, rfl, (plan_lease mem rfl).mp rfl⟩
      | reportOnly _ _ | adopt _ _ | remove _ _ _ | refuse _ _ | markAbsent _ => cases lease
    · exact fun _ _ _ _ => trivial

/-- When the runtime could not be listed, leases are released where the containers were gone. -/
theorem failActions_held {why : String} {actions : List Action} (sound : l.Sound)
    (ready : AllReady l actions)
    (gone : ∀ ref, .releaseLease ref ∈ actions → ContainersGone l ref.1) :
    Meets Watch.see LeaseRule (failActions why actions) (fun _ _ _ => True) (fun _ _ _ => True) l
      ⟨l, lost⟩ := by
  induction actions generalizing l with
  | nil => exact trivial
  | cons a actions ih =>
    have bracket : ∀ ref outcome, a.target? = some ref → Ledger.isConflict outcome = false →
        (∀ t d, releasesLease (.cleanupResult ref.2 ref.1 outcome t) = some d → ContainersGone l d) →
        Meets Watch.see LeaseRule
          (attempt ref >>= fun _ => settle ref outcome >>= fun _ => failActions why actions)
          (fun _ _ _ => True) (fun _ _ _ => True) l ⟨l, lost⟩ := by
      intro ref outcome about plain allowed
      obtain ⟨e, found, unsettled, _⟩ := ready.head ref about
      rw [← bind_assoc]
      refine meets_bind.mpr ((bracket_held sound found unsettled plain allowed).imp ?_)
      rintro _ l₁ w ⟨changed, rfl⟩
      refine ih changed.sound (ready.tail fun d k other => ?_).1 fun ref' mem => ?_
      · exact changed.elsewhere d k fun same => other a List.mem_cons_self (same ▸ about)
      · exact changed.gone found (Bool.or_eq_false_iff.mp unsettled).1 rfl
          (gone ref' (List.mem_cons_of_mem _ mem))
    cases a with
    | releaseLease entry =>
      refine bracket entry .removed rfl rfl fun t d releases => ?_
      exact releasesLease_result releases ▸ gone entry List.mem_cons_self
    | markAbsent entry => exact bracket entry (couldNotList why) rfl rfl fun _ _ h => (nomatch h)
    | reportOnly _ _ | adopt _ _ | refuse _ _ | remove _ _ _ =>
      exact ih sound (ready.tail fun _ _ _ => rfl).1 fun ref mem => gone ref (List.mem_cons_of_mem _ mem)

/-- A container whose lease was released lawfully was released before it: `c` is the container as
it was at the start. -/
structure GoneBefore (lease : EntryRef) (c : Entry) (w : Watch) : Prop where
  sound : w.ledger.Sound
  container : ∃ c' ∈ w.ledger.entries, c.Later c' ∧
    (releasedAt w.ledger lease = true → c'.isReleased = true)

/-- If a change of one entry released `ref`, it is that entry, and the change released it. -/
theorem released_modifyEntry {k : ResourceKey} {f : Entry → Entry} (found : l.find d k = some e)
    (before : releasedAt l ref = false) (after : releasedAt (l.modifyEntry d k f) ref = true)
    (keeps : ∀ x, (f x).ref = x.ref) : ref = (d, k) ∧ (f e).isReleased = true := by
  by_cases same : ref = (d, k)
  · refine ⟨same, ?_⟩
    simpa only [releasedAt, same, Ledger.find_modifyEntry_self keeps found, Option.any_some] using after
  · rw [releasedAt, Ledger.find_modifyEntry_of_ne keeps same] at after
    exact absurd (before.symm.trans after) Bool.false_ne_true

/-- A lease is released by the result of a cleanup of its own. -/
theorem Ledger.Applied.releases {r : LedgerRecord} {l' : Ledger} (h : Ledger.Applied l r l')
    (lease : ref.2.kind = .portLease) (before : releasedAt l ref = false)
    (after : releasedAt l' ref = true) : releasesLease r = some ref.1 := by
  cases h with
  | intent fresh free =>
    rw [releasedAt] at before after
    cases found : l.find ref.1 ref.2 with
    | some x =>
      rw [Ledger.find_push_of_some found] at after
      exact absurd (before.symm.trans (found ▸ after)) Bool.false_ne_true
    | none =>
      rw [Ledger.find_push_of_none found] at after
      split at after <;> cases after
  | receipt found noId state => cases (released_modifyEntry found before after fun _ => rfl).2
  | receiptAgain found same => exact absurd (before.symm.trans after) Bool.false_ne_true
  | @attempt k d atMs x found unsettled =>
    have released := (released_modifyEntry found before after fun _ => rfl).2
    exact absurd ((Bool.or_eq_false_iff.mp unsettled).1.symm.trans released) Bool.false_ne_true
  | @result k d outcome atMs x found outstanding conflict =>
    obtain ⟨rfl, released⟩ := released_modifyEntry found before after fun _ => rfl
    cases outcome with
    | removed | alreadyAbsent => exact if_pos lease
    | failed _ | refused _ | conflict _ _ => cases released

/-- Step lemma: a lawful event keeps the container released before its lease. -/
theorem GoneBefore.step {c : Entry} {w : Watch} {ev : Event EngineSig} (h : GoneBefore ref c w)
    (lease : ref.2.kind = .portLease) (dep : c.deployment = ref.1) (container : c.key.kind = .container)
    (kept : c.disposition ≠ .retain) (allowed : LeaseRule w ev.op) : GoneBefore ref c (w.see ev) := by
  obtain ⟨op, answer⟩ := ev
  cases op with
  | record r =>
    cases answer with
    | failed j stored => exact ⟨h.sound, h.container⟩
    | acknowledged =>
      obtain ⟨c', mem, later, released⟩ := h.container
      rcases w.ledger.apply_cases r with ⟨_, same⟩ | applied
      · have unchanged : w.see ⟨.record r, .acknowledged⟩ = w := by
          simp only [Watch.see, Watch.wrote, same]
        rw [unchanged]; exact h
      · refine ⟨applied.sound h.sound, ?_⟩
        obtain ⟨c₁, mem₁, later₁⟩ := applied.later h.sound mem
        refine ⟨c₁, mem₁, later.trans later₁, fun now => ?_⟩
        have gone : c'.isReleased = true := by
          cases before : releasedAt w.ledger ref with
          | true => exact released before
          | false =>
            have same := later.ref
            exact allowed ref.1 (applied.releases lease before now) c' mem
              ((congrArg Prod.fst same).trans dep)
              ((congrArg (fun r => r.2.kind) same).trans container)
              (by rw [later.disposition]; exact kept)
        rw [later₁.settled (by rw [Entry.isSettled, gone]; rfl)]
        exact gone
  | _ => exact ⟨h.sound, h.container⟩

/-- When the runtime could not be listed and every write is acknowledged, leases are released lawfully
only if the containers were gone. -/
theorem gone_of_failActions {why : String} {actions : List Action} (sound : l.Sound)
    (ready : AllReady l actions)
    (leases : ∀ r, .releaseLease r ∈ actions → r.2.kind = .portLease)
    (lawful : ∀ h q, Program.Follows ((failActions why actions).toProgram l) h q →
      Lawful Watch.see LeaseRule ⟨l, false⟩ h)
    (planned : .releaseLease ref ∈ actions) : ContainersGone l ref.1 := by
  intro c mem dep container kept
  have run := Program.play_follows (obliging (.ok [])) ((failActions why actions).toProgram l)
  have notLost : (History.seen Watch.see ⟨l, false⟩
      (((failActions why actions).toProgram l).play (obliging (.ok []))).1).lost = false :=
    obliging_not_lost (fun _ he => Program.play_answers he) rfl
  have meets : Meets Watch.see (fun _ _ => True) (failActions why actions)
      (fun _ l' w => w = ⟨l', false⟩ ∧
        (∀ ref, .releaseLease ref ∈ actions → releasedAt l' ref = true) ∧
        ∀ ref, .releaseLease ref ∉ actions → releasedAt l' ref = releasedAt l ref)
      (fun x _ w => Refusal False x w) l ⟨l, false⟩ := failActions_meets sound ready
  have outcome := Program.Obeys.ended meets run
  generalize ((failActions why actions).toProgram l).play (obliging (.ok [])) = played
    at run outcome notLost
  obtain ⟨h, ⟨x⟩ | ⟨value⟩, l'⟩ := played
  · cases x with
    | journal j => exact absurd (notLost.symm.trans outcome) Bool.false_ne_true
    | ledger _ | transition _ => exact outcome.elim
  · obtain ⟨watched, released, unreleased⟩ := outcome
    cases live : c.isReleased with
    | true => rfl
    | false =>
      have found := sound.find_of_mem mem
      have start : GoneBefore ref c ⟨l, false⟩ := by
        refine ⟨sound, c, mem, .refl c, fun already => ?_⟩
        obtain ⟨e, there, unsettled, _⟩ := ready.ready _ planned ref rfl
        rw [releasedAt, there] at already
        exact absurd ((Bool.or_eq_false_iff.mp unsettled).1.symm.trans already) Bool.false_ne_true
      have stays := (lawful h _ run).invariant (I := GoneBefore ref c)
        (fun w ev before allowed => before.step (leases ref planned) dep container kept allowed) start
      rw [watched] at stays
      obtain ⟨c', mem', later, gone⟩ := stays.container
      have now := stays.sound.find_of_mem mem'
      have same : (c'.deployment, c'.key) = c.ref := later.ref
      have notLease : .releaseLease c.ref ∉ actions := fun here => by
        have := leases _ here
        rw [show c.ref.2 = c.key from rfl, container] at this
        cases this
      have before : releasedAt l c.ref = false := by
        rw [releasedAt, show l.find c.ref.1 c.ref.2 = some c from found]; exact live
      have after := (unreleased c.ref notLease).trans before
      rw [← same, releasedAt, now, Option.any_some, gone (released ref planned)] at after
      cases after

/-- The leases of a plan: those of ended deployments about which a decision is due. -/
theorem releaseLease_mem_plan (sound : l.Sound) :
    .releaseLease ref ∈ plan l observed ended ↔
      ∃ e ∈ l.entries, e.ref = ref ∧ e.key.kind = .portLease ∧
        (endedAs ended e.deployment).any (needsDecision e) = true := by
  constructor
  · intro planned
    rcases mem_plan planned with ⟨e, mem, state, ending, proposed⟩ | ⟨o, _, report⟩
    · obtain ⟨kind, needs, lease⟩ := planEntry_planned proposed
      have same : ref = e.ref := Option.some.inj kind.target?
      exact ⟨e, mem, same.symm, lease.mp rfl, by rw [ending]; exact needs⟩
    · cases report
  · rintro ⟨e, mem, rfl, lease, due⟩
    cases ending : endedAs ended e.deployment with
    | none => rw [ending] at due; cases due
    | some state =>
      rw [ending] at due
      obtain ⟨a, proposed, one⟩ := plan_one observed sound.unique mem ending due
      obtain ⟨kind, _, isLease⟩ := planEntry_planned proposed
      have here : a ∈ plan l observed ended :=
        (List.mem_filter.mp (one ▸ List.mem_singleton_self a)).1
      have about := kind.target?
      have releases := isLease.mpr lease
      cases a with
      | releaseLease r => cases about; exact here
      | reportOnly _ _ | adopt _ _ | remove _ _ _ | refuse _ _ | markAbsent _ => cases releases

/-- **When leases are held.** In every run of a reconciliation from a reachable ledger, a lease is
released only where the containers of its deployment are gone, exactly if the runtime could be listed,
or the containers of every deployment with a lease to release were gone before. -/
theorem leases_held_iff (reachable : ReachableLedger RestoredRetained l)
    (ended : List (DeploymentId × EndState)) (listed : Except StepError (List Observed)) :
    (∀ h q, Program.Follows ((reconcile ended).toProgram l) (⟨.listResources, listed⟩ :: h) q →
      LeasesHeld l (⟨.listResources, listed⟩ :: h)) ↔
    ∀ why, listed = .error why → ∀ e ∈ l.entries, e.key.kind = .portLease →
      (endedAs ended e.deployment).any (needsDecision e) = true → ContainersGone l e.deployment := by
  have sound := reachable.sound
  have lawful : (∀ h q, Program.Follows ((reconcile ended).toProgram l) (⟨.listResources, listed⟩ :: h) q →
        LeasesHeld l (⟨.listResources, listed⟩ :: h)) ↔
      ∀ h q, Program.Follows ((reconcileListed ended listed).toProgram l) h q →
        Lawful Watch.see LeaseRule ⟨l, false⟩ h := by
    have first : (reconcile ended).toProgram l =
        .ask .listResources fun answer => (reconcileListed ended answer).toProgram l := rfl
    rw [first]
    have held : ∀ h, LeasesHeld l h ↔ Lawful Watch.see LeaseRule ⟨l, false⟩ h := fun _ => leasesHeld_iff
    simp only [follows_after (S := EngineSig), held, Lawful, LeaseRule, Watch.see, true_and]
  rw [lawful]
  cases listed with
  | ok observed =>
    refine iff_of_true (fun h q follows => ?_) (fun _ listing => by cases listing)
    exact (Program.Obeys.follows (reconcile_listed_held sound reachable.keepsRestored) follows).2
  | error why =>
    have ready := plan_ready sound [] ended
    have kinds : ∀ r, .releaseLease r ∈ plan l [] ended → r.2.kind = .portLease :=
      fun r mem => (plan_lease mem rfl).mp rfl
    constructor
    · intro held _ _ e mem lease due
      have failing : ∀ h q, Program.Follows ((failActions why.message (plan l [] ended)).toProgram l) h q →
          Lawful Watch.see LeaseRule ⟨l, false⟩ h := fun h q follows => held h _ (by
        have whole : (reconcileListed ended (.error why)).toProgram l =
            (failActions why.message (plan l [] ended) >>= fun _ => pure []).toProgram l := rfl
        rw [whole, toProgram_bind]
        exact follows.bind _)
      exact gone_of_failActions sound ready kinds failing
        ((releaseLease_mem_plan sound).mpr ⟨e, mem, rfl, lease, due⟩)
    · intro gone h q follows
      have meets : Meets Watch.see LeaseRule (reconcileListed ended (.error why)) (fun _ _ _ => True)
          (fun _ _ _ => True) l ⟨l, false⟩ := by
        refine meets_bind.mpr (meets_get.mpr (meets_bind.mpr ?_))
        refine (failActions_held sound ready fun r planned => ?_).imp fun _ _ _ _ => trivial
        obtain ⟨e, mem, rfl, lease, due⟩ := (releaseLease_mem_plan sound).mp planned
        exact gone why rfl e mem lease due
      exact (Program.Obeys.follows meets follows).2

end

/-! ## A lease released too early

The process dies in the preliminary check, after its container was created on a leased port. At the
next start the runtime cannot be listed. -/

namespace UnlistedRuntime

def app : ApplicationId := ⟨1#128⟩

def dep : DeploymentId := ⟨3#128⟩

def queued : Deployment := { Deployment.new dep app .manual 0 with status := .queued }

/-- The preliminary check leases a port and creates its container. -/
def checking : (op : EngineOp) → op.Answer
  | .call .preliminaryCheck _ =>
    .ask (.leasePort 8080) fun _ => .ask (.intend ⟨.container, "hp-3-check"⟩ .removeAlways) fun
      | .ok intent => .ask (.receipt intent "2f") fun _ => .done ()
      | .error _ => .done ()
  | .result .prepareSource | .result .build => .ok ()
  | op => obliging (.ok []) op

/-- The run, up to the moment the container's receipt is on disk. -/
def cutRun : History EngineSig :=
  (((runDeploymentConfirmed queued ⟨none⟩ .default).play checking).1).take 33

def created : Ledger := Ledger.new.absorb (acknowledgedRecords cutRun)

/-- The deployment was interrupted. -/
def ended : List (DeploymentId × EndState) := (endState .interrupted).toList.map fun e => (dep, e)

def unreachable : StepError := .new "unreachable"

theorem created_reachable : ReachableLedger RestoredRetained created := by
  obtain ⟨q, follows⟩ := (Program.play_follows checking
    (runDeploymentConfirmed queued ⟨none⟩ .default)).take 33
  have start : ReachableLedger RestoredRetained RunConfig.default.priorLedger := .new
  refine .run (h := cutRun) start follows ?_ (.inl (by decide +kernel))
  exact restoredRetained_of_all (by decide +kernel)

/-- A run of a reconciliation, from a reachable ledger, that releases a lease under a container. -/
theorem lease_released_early :
    ¬ ∀ l, ReachableLedger RestoredRetained l → ∀ ended h q,
      Program.Follows ((reconcile ended).toProgram l) h q → LeasesHeld l h := by
  intro held
  have run := Program.play_follows (obliging (.error unreachable)) ((reconcile ended).toProgram created)
  have unlawful : ¬ Lawful Watch.see LeaseRule ⟨created, false⟩
      (((reconcile ended).toProgram created).play (obliging (.error unreachable))).1 := by
    decide +kernel
  exact unlawful (leasesHeld_iff.mp (held created created_reachable ended _ _ run))

/-- From that ledger, leases are held if the runtime lists nothing, and not if it cannot be listed. -/
theorem leases_held_created :
    (∀ h q, Program.Follows ((reconcile ended).toProgram created) (⟨.listResources, .ok []⟩ :: h) q →
      LeasesHeld created (⟨.listResources, .ok []⟩ :: h)) ∧
    ¬ ∀ h q, Program.Follows ((reconcile ended).toProgram created)
        (⟨.listResources, .error unreachable⟩ :: h) q →
      LeasesHeld created (⟨.listResources, .error unreachable⟩ :: h) := by
  refine ⟨(leases_held_iff created_reachable ended (.ok [])).mpr (fun _ h => (nomatch h)), fun held => ?_⟩
  have gone := (leases_held_iff created_reachable ended (.error unreachable)).mp held unreachable rfl
    (created.entries.head (by decide +kernel)) (List.head_mem _) (by decide +kernel) (by decide +kernel)
  exact absurd gone (by decide +kernel)

end UnlistedRuntime

end Harpoon.Deploy
