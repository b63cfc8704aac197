import Harpoon.Deploy.Engine
import Harpoon.Laws.Reconcile

/-!
# The ledgers of the program

A ledger is reached by runs, explicit recoveries and reconciliations, each cut short anywhere. What a
process has in memory is what the journal acknowledged; what a crash leaves on disk is what was
stored, which may be more. The next process replays it.

What the backends promise about the records they write is a parameter. One such promise is
`RestoredRetained`: the container a restoration creates is recorded as retained. The backends keep it,
and the rule by which a reconciliation decides about leases relies on it.
-/

namespace Harpoon.Deploy

open Interact

/-- The ledger record of an event, if its write came to what `keep` asks for. -/
def ledgerRecord? (keep : Written → Bool) : Event EngineSig → Option LedgerRecord
  | ⟨.record r, answer⟩ => if keep answer then some r else none
  | _ => none

def acknowledgedRecords (h : History EngineSig) : List LedgerRecord :=
  h.filterMap (ledgerRecord? Written.isAcknowledged)

def storedRecords (h : History EngineSig) : List LedgerRecord :=
  h.filterMap (ledgerRecord? Written.isStored)

/-- The ledger a history leaves, in memory or on disk. -/
def LeftBy (l : Ledger) (h : History EngineSig) (l' : Ledger) : Prop :=
  (l.replayFrom 0 (acknowledgedRecords h)).toOption = some l' ∨
    (l.replayFrom 0 (storedRecords h)).toOption = some l'

/-- An intent of a container under the name of a restoration retains it. -/
def keepsRestored : LedgerRecord → Bool
  | .intent key _ d disposition _ =>
    !(key.kind = .container && key.name = restoredContainerName d) || disposition = .retain
  | _ => true

/-- Every intent of the history keeps what a restoration creates. -/
def RestoredRetained (h : History EngineSig) : Prop :=
  ∀ e ∈ h, match e with
    | ⟨.record r, _⟩ => keepsRestored r = true
    | _ => True

theorem restoredRetained_of_all {h : History EngineSig}
    (all : h.all (fun e => match e with
      | ⟨.record r, _⟩ => keepsRestored r
      | _ => true) = true) : RestoredRetained h := by
  intro e he
  have keeps := List.all_eq_true.mp all e he
  obtain ⟨op, answer⟩ := e
  cases op with
  | record r => exact keeps
  | _ => trivial

/-- The ledgers that runs, explicit recoveries and reconciliations reach, each cut short anywhere,
while the backends keep a promise. -/
inductive ReachableLedger (promise : History EngineSig → Prop) : Ledger → Prop where
  | new : ReachableLedger promise .new
  | run {d : Deployment} {ctx : Context} {cfg : RunConfig} {h : History EngineSig}
      {q : Program EngineSig (Except EngineError Report × Run)} {l : Ledger}
      (start : ReachableLedger promise cfg.priorLedger)
      (follows : Program.Follows (runDeploymentConfirmed d ctx cfg) h q)
      (kept : promise h) (left : LeftBy cfg.priorLedger h l) : ReachableLedger promise l
  | recover {d : Deployment} {previous : PreviousRelease} {cfg : RunConfig} {h : History EngineSig}
      {q : Program EngineSig (Except EngineError Report × Run)} {l : Ledger}
      (start : ReachableLedger promise cfg.priorLedger)
      (follows : Program.Follows (recoverCutover d previous cfg) h q)
      (kept : promise h) (left : LeftBy cfg.priorLedger h l) : ReachableLedger promise l
  | reconcile {l₀ : Ledger} {ended : List (DeploymentId × EndState)} {h : History EngineSig}
      {q : Program EngineSig (Except EngineError (List Observed) × Ledger)} {l : Ledger}
      (start : ReachableLedger promise l₀)
      (follows : Program.Follows ((Deploy.reconcile ended).toProgram l₀) h q)
      (left : LeftBy l₀ h l) : ReachableLedger promise l

/-! ## What they satisfy -/

namespace Ledger

/-- A container of the ledger under the name of a restoration is retained. -/
def KeepsRestored (l : Ledger) : Prop :=
  ∀ e ∈ l.entries, e.key.kind = .container → e.key.name = restoredContainerName e.deployment →
    e.disposition = .retain

variable {l l' : Ledger} {r : LedgerRecord}

/-- Step lemma. -/
theorem Applied.keepsRestored (h : Applied l r l') (record : Deploy.keepsRestored r = true)
    (keeps : l.KeepsRestored) : l'.KeepsRestored := by
  have modified : ∀ {d k e} {f : Entry → Entry}, l.find d k = some e → (f e).key = e.key →
      (f e).deployment = e.deployment → (f e).disposition = e.disposition →
      (l.modifyEntry d k f).KeepsRestored := by
    intro d k e f found key dep disposition x hx
    rcases Keyed.mem_modify found hx with rfl | hx
    · rw [key, dep, disposition]; exact keeps e (find_mem found)
    · exact keeps x hx
  cases h with
  | @intent k app d disposition atMs fresh free =>
    intro x hx
    rcases List.mem_append.mp hx with hx | hx
    · exact keeps x hx
    · rw [List.mem_singleton.mp hx]
      intro (container : k.kind = .container) (name : k.name = restoredContainerName d)
      show disposition = .retain
      simpa [Deploy.keepsRestored, container, name] using record
  | receipt found _ _ | attempt found _ | result found _ _ => exact modified found rfl rfl rfl
  | receiptAgain _ _ => exact keeps

/-- What one accepted record preserves, a replay preserves. -/
theorem replayFrom_invariant {I : Ledger → Prop} {rs : List LedgerRecord} {i : Nat}
    (step : ∀ l l', ∀ r ∈ rs, Applied l r l' → I l → I l') (start : I l)
    (replayed : (l.replayFrom i rs).toOption = some l') : I l' := by
  induction rs generalizing l i with
  | nil => cases replayed; exact start
  | cons r rs ih =>
    rw [replayFrom] at replayed
    rcases l.apply_spec r with ⟨x, refused⟩ | ⟨l₁, accepted, applied⟩
    · rw [refused] at replayed; cases replayed
    · rw [accepted] at replayed
      exact ih (fun l l' r hr => step l l' r (List.mem_cons_of_mem _ hr))
        (step l l₁ r List.mem_cons_self applied start) replayed

end Ledger

/-- A record of a history was one of its operations. -/
theorem mem_ledgerRecords {keep : Written → Bool} {h : History EngineSig} {r : LedgerRecord}
    (mem : r ∈ h.filterMap (ledgerRecord? keep)) : ∃ e ∈ h, e.op = .record r := by
  obtain ⟨e, he, made⟩ := List.mem_filterMap.mp mem
  refine ⟨e, he, ?_⟩
  obtain ⟨op, answer⟩ := e
  cases op with
  | record r' =>
    simp only [ledgerRecord?] at made
    split at made <;> cases made
    rfl
  | _ => cases made

theorem LeftBy.invariant {I : Ledger → Prop} {l l' : Ledger} {h : History EngineSig}
    (left : LeftBy l h l') (start : I l)
    (step : ∀ l l' r, (∃ e ∈ h, e.op = .record r) → Ledger.Applied l r l' → I l → I l') : I l' := by
  rcases left with left | left <;>
    exact Ledger.replayFrom_invariant
      (fun l l' r hr => step l l' r (mem_ledgerRecords hr)) start left

theorem ReachableLedger.sound {promise : History EngineSig → Prop} {l : Ledger}
    (h : ReachableLedger promise l) : l.Sound := by
  induction h with
  | new => exact Ledger.sound_new
  | run _ _ _ left ih | recover _ _ _ left ih | reconcile _ _ left ih =>
    exact left.invariant ih fun _ _ _ _ applied => applied.sound

/-- Cleanup code writes only the records it may. -/
theorem Cleans.writes {ρ α : Type} {writes : LedgerRecord → Prop} {x : Engine ρ EngineError α} {r : ρ}
    {h : History EngineSig} {q : Program EngineSig (Except EngineError α × ρ)} (cleans : Cleans writes x)
    (follows : Program.Follows (x.toProgram r) h q) : ∀ e ∈ h, ∀ r, e.op = .record r → writes r := by
  have lawful := (Program.Obeys.follows (cleans r false rfl) follows).2
  intro e he r record
  obtain ⟨before, rest, rfl⟩ := List.append_of_mem he
  have allowed := lawful.at
  rw [record] at allowed
  exact allowed

theorem ReachableLedger.keepsRestored {l : Ledger} (h : ReachableLedger RestoredRetained l) :
    l.KeepsRestored := by
  induction h with
  | new => exact fun _ h => (nomatch h)
  | run _ _ retained left ih | recover _ _ retained left ih =>
    refine left.invariant ih fun _ _ r ⟨e, he, record⟩ applied => ?_
    have keeps := retained e he
    obtain ⟨op, answer⟩ := e
    obtain rfl : op = .record r := record
    exact applied.keepsRestored keeps
  | reconcile _ follows left ih =>
    refine left.invariant ih fun _ _ r ⟨e, he, record⟩ applied => ?_
    have none_new := (reconcile_cleans _).writes follows e he r record
    refine applied.keepsRestored ?_
    cases r with
    | intent _ _ _ _ _ => cases none_new
    | receipt _ _ _ _ | cleanupAttempt _ _ _ | cleanupResult _ _ _ _ => rfl

end Harpoon.Deploy
