import Harpoon.Deploy.Reconcile
import Harpoon.Laws.Plan

/-!
# What a reconciliation does

A reconciliation reads the clock and the runtime and writes ledger records. `Watch` follows it from
outside: the ledger as the acknowledged records leave it, and whether a write was lost. The ledger the
code keeps is always the watched one, so a rule of `Watch` is a statement about the code's ledger at
the moment of a write.
-/

namespace Harpoon.Deploy

open Interact Process

/-! ## The watched ledger -/

structure Watch where
  ledger : Ledger
  /-- Some write was not acknowledged. -/
  lost : Bool

namespace Watch

def wrote (w : Watch) (r : LedgerRecord) : Written → Watch
  | .acknowledged => { w with ledger := (w.ledger.apply r).2 }
  | .failed _ _ => { w with lost := true }

def see (w : Watch) : Event EngineSig → Watch
  | ⟨.record r, answer⟩ => w.wrote r answer
  | _ => w

end Watch

theorem meets_ask {ρ ε σ : Type} {see : σ → Event EngineSig → σ} {rule : σ → EngineOp → Prop}
    {op : EngineOp} {post : op.Answer → ρ → σ → Prop} {fail : ε → ρ → σ → Prop} {r : ρ} {s : σ} :
    Meets see rule (ask op : Engine ρ ε op.Answer) post fail r s ↔
      rule s op ∧ ∀ answer, post answer r (see s ⟨op, answer⟩) := Iff.rfl

/-! ## Footprints -/

/-- The operations of cleanup code that writes only records which satisfy `writes`. -/
def CleanupOp (writes : LedgerRecord → Prop) : EngineOp → Prop
  | .record r => writes r
  | .nowMs | .listResources | .removeResource _ => True
  | _ => False

/-- Not a refused transition. -/
def EngineError.notTransition : EngineError → Prop
  | .transition _ => False
  | _ => True

/-- Whether a write was lost. -/
def lose (lost : Bool) : Event EngineSig → Bool
  | ⟨.record _, .failed _ _⟩ => true
  | _ => lost

/-- Cleanup code: it asks nothing but cleanup operations, requests no transition, and gives up when a
write is lost. -/
abbrev Cleans {ρ α : Type} (writes : LedgerRecord → Prop) (x : Engine ρ EngineError α) : Prop :=
  x.Keeps lose (fun _ => CleanupOp writes) (fun lost => lost = false) EngineError.notTransition

theorem writeRecord_cleans {writes : LedgerRecord → Prop} {r : LedgerRecord} (allowed : writes r) :
    Cleans writes (writeRecord r) := by
  intro l lost kept
  refine meets_bind.mpr (meets_get.mpr ?_)
  split
  · trivial
  · refine meets_bind.mpr (meets_ask.mpr ⟨allowed, fun answer => ?_⟩)
    cases answer with
    | acknowledged => exact kept
    | failed e stored => trivial

section

variable {writes : LedgerRecord → Prop} {entry : EntryRef} {outcome : CleanupOutcome}

theorem now_cleans {ρ : Type} : Cleans writes (now : Engine ρ EngineError Nat) :=
  fun _ _ kept => ⟨trivial, fun _ => kept⟩

theorem listResources_cleans {ρ : Type} :
    Cleans writes (ask .listResources : Engine ρ EngineError _) := fun _ _ kept => ⟨trivial, fun _ => kept⟩

/-- The record is about an entry that exists: it is no intent. -/
def About (entry : EntryRef) (r : LedgerRecord) : Prop :=
  (r.deployment, r.key) = entry ∧ r.isIntent = false

theorem attempt_cleans (allowed : ∀ r, About entry r → writes r) : Cleans writes (attempt entry) :=
  now_cleans.bind fun _ => writeRecord_cleans (allowed _ ⟨rfl, rfl⟩)

theorem settle_cleans (allowed : ∀ r, About entry r → writes r) : Cleans writes (settle entry outcome) :=
  now_cleans.bind fun _ => writeRecord_cleans (allowed _ ⟨rfl, rfl⟩)

theorem adoptEntry_cleans {o : Observed} (allowed : ∀ r, About entry r → writes r) :
    Cleans writes (adoptEntry entry o) :=
  now_cleans.bind fun _ => writeRecord_cleans (allowed _ ⟨rfl, rfl⟩)

/-- A bracketed cleanup, and then the rest of the code. -/
theorem bracket_cleans {α : Type} {x : Engine Ledger EngineError α}
    (allowed : ∀ r, About entry r → writes r) (rest : Cleans writes x) :
    Cleans writes (attempt entry >>= fun _ => settle entry outcome >>= fun _ => x) :=
  (attempt_cleans allowed).bind fun _ => (settle_cleans allowed).bind fun _ => rest

theorem removeObserved_cleans {o : Observed} (allowed : ∀ r, About entry r → writes r) :
    Cleans writes (removeObserved entry o) := by
  refine (attempt_cleans allowed).bind fun _ => Keeps.get.bind fun l => ?_
  split
  next e found =>
    refine Keeps.bind (fun _ _ kept => ⟨trivial, fun _ => kept⟩) fun _ => ?_
    exact settle_cleans allowed
  next => exact .throw trivial

/-- An action writes only about its own entry. -/
theorem executeAction_cleans {a : Action}
    (allowed : ∀ entry, a.target? = some entry → ∀ r, About entry r → writes r) :
    Cleans writes (executeAction a) := by
  cases a with
  | reportOnly o why => exact .pure
  | adopt entry o => exact (adoptEntry_cleans (allowed entry rfl)).bind fun _ => .pure
  | releaseLease entry | markAbsent entry | refuse entry why =>
    exact bracket_cleans (allowed entry rfl) .pure
  | remove entry o adopt =>
    have rest := removeObserved_cleans (o := o) (allowed entry rfl)
    cases adopt with
    | true => exact (adoptEntry_cleans (allowed entry rfl)).bind fun _ => rest.bind fun _ => .pure
    | false => exact rest.bind fun _ => .pure

theorem executeActions_cleans {actions : List Action}
    (allowed : ∀ a ∈ actions, ∀ entry, a.target? = some entry → ∀ r, About entry r → writes r) :
    Cleans writes (executeActions actions) := by
  induction actions with
  | nil => exact .pure
  | cons a actions ih =>
    refine (executeAction_cleans (allowed a List.mem_cons_self)).bind fun _ => ?_
    exact (ih fun b hb => allowed b (List.mem_cons_of_mem _ hb)).bind fun _ => .pure

theorem releaseLeases_cleans {leases : List Action}
    (allowed : ∀ a ∈ leases, ∀ entry, a.target? = some entry → ∀ r, About entry r → writes r) :
    Cleans writes (releaseLeases leases) := by
  induction leases with
  | nil => exact .pure
  | cons a leases ih =>
    have tail := ih fun b hb => allowed b (List.mem_cons_of_mem _ hb)
    refine Keeps.bind (Keeps.get.bind fun l => ?_) fun _ => tail.bind fun _ => .pure
    split
    · exact executeActions_cleans fun b hb => List.mem_singleton.mp hb ▸ allowed a List.mem_cons_self
    · exact .pure

theorem failActions_cleans {why : String} {actions : List Action}
    (allowed : ∀ a ∈ actions, ∀ entry, a.target? = some entry → ∀ r, About entry r → writes r) :
    Cleans writes (failActions why actions) := by
  induction actions with
  | nil => exact .pure
  | cons a actions ih =>
    have tail := ih fun b hb => allowed b (List.mem_cons_of_mem _ hb)
    have here := allowed a List.mem_cons_self
    cases a with
    | releaseLease entry | markAbsent entry => exact bracket_cleans (here entry rfl) tail
    | reportOnly _ _ | adopt _ _ | refuse _ _ | remove _ _ _ => exact tail

/-- A reconciliation is cleanup code, and writes no intent. -/
theorem reconcile_cleans (ended : List (DeploymentId × EndState)) :
    Cleans (fun r => r.isIntent = false) (reconcile ended) := by
  refine listResources_cleans.bind fun answer => ?_
  cases answer with
  | ok observed =>
    exact Keeps.get.bind fun l => (executeActions_cleans fun _ _ _ _ _ h => h.2).bind fun _ =>
      (releaseLeases_cleans fun _ _ _ _ _ h => h.2).bind fun _ => .pure
  | error e =>
    exact Keeps.get.bind fun l => (failActions_cleans fun _ _ _ _ _ h => h.2).bind fun _ => .pure

end

/-! ## One write, and one bracketed removal -/

/-- Only the entry `ref` changed, into `e`. -/
structure Changed (ref : EntryRef) (l l' : Ledger) (e : Entry) : Prop where
  sound : l'.Sound
  found : l'.find ref.1 ref.2 = some e
  elsewhere : ∀ d k, (d, k) ≠ ref → l'.find d k = l.find d k

theorem Changed.trans {ref : EntryRef} {l l' l'' : Ledger} {e e' : Entry} (h : Changed ref l l' e)
    (h' : Changed ref l' l'' e') : Changed ref l l'' e' :=
  ⟨h'.sound, h'.found, fun d k other => (h'.elsewhere d k other).trans (h.elsewhere d k other)⟩

theorem changed_modifyEntry {ref : EntryRef} {l : Ledger} {e : Entry} {f : Entry → Entry}
    (found : l.find ref.1 ref.2 = some e) (keeps : ∀ x, (f x).ref = x.ref)
    (sound : (l.modifyEntry ref.1 ref.2 f).Sound) :
    Changed ref l (l.modifyEntry ref.1 ref.2 f) (f e) :=
  ⟨sound, Ledger.find_modifyEntry_self keeps found, fun _ _ other =>
    Ledger.find_modifyEntry_of_ne keeps other⟩

/-- The entry after an attempt, after its result, and after an adoption. -/
def Entry.attempted (e : Entry) : Entry :=
  { e with cleanupAttempts := e.cleanupAttempts + 1, cleanupOutstanding := true }

def Entry.finished (e : Entry) (outcome : CleanupOutcome) : Entry :=
  { e with cleanupOutstanding := false, state := Ledger.stateOf outcome }

def Entry.adopted (e : Entry) (id : String) : Entry := { e with id := some id, state := .created }

section

variable {rule : Watch → EngineOp → Prop} {l : Ledger} {lost : Bool} {ref : EntryRef} {e : Entry}
  {post : Unit → Ledger → Watch → Prop} {fail : EngineError → Ledger → Watch → Prop}

theorem writeRecord_meets {r : LedgerRecord} (allowed : rule ⟨l, lost⟩ (.record r))
    (written : ∀ l', Ledger.Applied l r l' → post () l' ⟨l', lost⟩)
    (refused : ¬ l.Accepts r → ∀ x, fail (.ledger x) l ⟨l, lost⟩)
    (unwritten : ∀ j, fail (.journal j) l ⟨l, true⟩) :
    Meets Watch.see rule (writeRecord r) post fail l ⟨l, lost⟩ := by
  refine meets_bind.mpr (meets_get.mpr ?_)
  rcases l.apply_spec r with ⟨x, refusal⟩ | ⟨l', accepted, applied⟩
  · simp only [refusal]
    refine refused (fun accepted => ?_) x
    rw [Ledger.Accepts, refusal] at accepted
    cases accepted
  · simp only [accepted]
    refine meets_bind.mpr (meets_ask.mpr ⟨allowed, fun answer => ?_⟩)
    cases answer with
    | acknowledged =>
      have seen : Watch.see ⟨l, lost⟩ ⟨.record r, .acknowledged⟩ = ⟨l', lost⟩ := by
        simp only [Watch.see, Watch.wrote, accepted]
      rw [seen]
      exact written l' applied
    | failed j stored => exact unwritten j

/-- The clock is read, and one record written. -/
theorem now_write_meets {r : Nat → LedgerRecord} (free : ∀ w, rule w .nowMs)
    (allowed : ∀ t, rule ⟨l, lost⟩ (.record (r t)))
    (written : ∀ t l', Ledger.Applied l (r t) l' → post () l' ⟨l', lost⟩)
    (refused : ∀ t, ¬ l.Accepts (r t) → ∀ x, fail (.ledger x) l ⟨l, lost⟩)
    (unwritten : ∀ j, fail (.journal j) l ⟨l, true⟩) :
    Meets Watch.see rule (now >>= fun t => writeRecord (r t)) post fail l ⟨l, lost⟩ :=
  meets_bind.mpr (meets_ask.mpr ⟨free _, fun t => writeRecord_meets (allowed t) (written t) (refused t) unwritten⟩)

/-- An attempt on an entry that is not settled is accepted. -/
theorem attempt_meets (free : ∀ w, rule w .nowMs)
    (allowed : ∀ t, rule ⟨l, lost⟩ (.record (.cleanupAttempt ref.2 ref.1 t)))
    (sound : l.Sound) (found : l.find ref.1 ref.2 = some e) (unsettled : e.isSettled = false)
    (written : ∀ l', Changed ref l l' e.attempted → post () l' ⟨l', lost⟩)
    (unwritten : ∀ j, fail (.journal j) l ⟨l, true⟩) :
    Meets Watch.see rule (attempt ref) post fail l ⟨l, lost⟩ := by
  have applied : ∀ t, Ledger.Applied l (.cleanupAttempt ref.2 ref.1 t) _ := fun t =>
    .attempt found unsettled
  refine now_write_meets free allowed ?_ ?_ unwritten
  · intro t l' happened
    have same : l' = l.modifyEntry ref.1 ref.2 Entry.attempted := by
      cases happened; rfl
    rw [same]
    exact written _ (changed_modifyEntry found (fun _ => rfl) ((applied t).sound sound))
  · intro t refused
    exact absurd (Ledger.accepts_iff.mpr ⟨_, applied t⟩) refused

/-- The result of an outstanding attempt is accepted, if its outcome may be recorded. -/
theorem settle_meets {outcome : CleanupOutcome} (free : ∀ w, rule w .nowMs)
    (allowed : ∀ t, rule ⟨l, lost⟩ (.record (.cleanupResult ref.2 ref.1 outcome t)))
    (sound : l.Sound) (found : l.find ref.1 ref.2 = some e) (out : e.cleanupOutstanding = true)
    (conflict : Ledger.isConflict outcome = true → Ledger.mayConflict e = true)
    (written : ∀ l', Changed ref l l' (e.finished outcome) → post () l' ⟨l', lost⟩)
    (unwritten : ∀ j, fail (.journal j) l ⟨l, true⟩) :
    Meets Watch.see rule (settle ref outcome) post fail l ⟨l, lost⟩ := by
  have applied : ∀ t, Ledger.Applied l (.cleanupResult ref.2 ref.1 outcome t) _ := fun t =>
    .result found out conflict
  refine now_write_meets free allowed ?_ ?_ unwritten
  · intro t l' happened
    have same : l' = l.modifyEntry ref.1 ref.2 (fun e => e.finished outcome) := by
      cases happened; rfl
    rw [same]
    refine written _ (changed_modifyEntry found (fun _ => rfl) ?_)
    exact (applied t).sound sound
  · intro t refused
    exact absurd (Ledger.accepts_iff.mpr ⟨_, applied t⟩) refused

/-- An adoption of an entry that has no id is accepted exactly while the entry is intended. -/
theorem adoptEntry_meets {o : Observed} (free : ∀ w, rule w .nowMs)
    (allowed : ∀ t, rule ⟨l, lost⟩ (.record (.receipt ref.2 ref.1 o.id t)))
    (sound : l.Sound) (found : l.find ref.1 ref.2 = some e) (noId : e.id = none)
    (written : ∀ l', e.state = .intended → Changed ref l l' (e.adopted o.id) → post () l' ⟨l', lost⟩)
    (refused : e.state ≠ .intended → ∀ x, fail (.ledger x) l ⟨l, lost⟩)
    (unwritten : ∀ j, fail (.journal j) l ⟨l, true⟩) :
    Meets Watch.see rule (adoptEntry ref o) post fail l ⟨l, lost⟩ := by
  refine now_write_meets free allowed ?_ ?_ unwritten
  · intro t l' happened
    have kept := happened.sound sound
    cases happened with
    | receipt found' _ intended =>
      obtain rfl : e = _ := Option.some.inj (found.symm.trans found')
      exact written _ intended (changed_modifyEntry found (fun _ => rfl) kept)
    | receiptAgain found' same =>
      obtain rfl : e = _ := Option.some.inj (found.symm.trans found')
      rw [noId] at same; cases same
  · intro t refusal
    refine refused fun intended => refusal (Ledger.accepts_iff.mpr ⟨_, .receipt found noId intended⟩)

end

end Harpoon.Deploy
