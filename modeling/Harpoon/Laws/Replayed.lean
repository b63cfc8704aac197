import Harpoon.Journal.Replay
import Harpoon.Laws.Ledger
import Harpoon.Laws.Machine
import Harpoon.Laws.Promises
import Harpoon.Laws.Serving
import Harpoon.Laws.Spared
import Harpoon.Laws.Traced

/-!
# Crash-consistent replay

The program appends to one journal: runs, explicit recoveries, starts and reconciliations write, each may be cut short
anywhere, and a write may fail. The replay has rules of its own for what it accepts (`journal_format.rs`). `Held` follows
what the file holds while a history goes on, and `Takes` says what the replay asks of the next write; every part of the
program keeps to it.
-/

namespace Harpoon.Journal

open Deploy Interact Process

/-! ## What a journal takes -/

/-- The line that an event puts in the file. -/
def storedLine? {β : Type} : Event EngineSig → Option (Line β)
  | ⟨.persist d, w⟩ => if w.isStored then some (.snapshot d) else none
  | ⟨.record r, w⟩ => if w.isStored then some (.ledger r) else none
  | _ => none

/-- The lines that a history puts in the file. -/
def storedLines {β : Type} (h : History EngineSig) : List (Line β) := h.filterMap storedLine?

/-- What became of the write, if the event is one. -/
def written? : Event EngineSig → Option Written
  | ⟨.persist _, w⟩ | ⟨.record _, w⟩ => some w
  | _ => none

/-- Once a write failed, no other is stored: the handle of the journal refuses it. -/
def Sealed (h : History EngineSig) : Prop :=
  h.Pairwise fun e e' => (written? e).any (fun w => !w.isAcknowledged) = true → (written? e').any Written.isStored = false

/-- The journal may hold `d` after `old`. -/
def Admits (old : Option Deployment) (d : Deployment) : Prop :=
  ∀ o, old = some o → o.id = d.id ∧ (o.status.isTerminal = true → d = o ∨ recoveryAttached o d = true)

/-- What the file holds of one deployment, and of all resources. -/
structure Held where
  stored : Option Deployment
  ledger : Ledger
  /-- A write failed. -/
  lost : Bool

namespace Held

def see (k : Held) : Event EngineSig → Held
  | ⟨.persist d, w⟩ =>
    { k with stored := if w.isStored then some d else k.stored, lost := k.lost || !w.isAcknowledged }
  | ⟨.record r, w⟩ =>
    { k with ledger := if w.isStored then (k.ledger.apply r).2 else k.ledger, lost := k.lost || !w.isAcknowledged }
  | _ => k

/-- While no write failed, the file takes what is written. -/
def Takes (k : Held) : EngineOp → Prop
  | .persist d => k.lost = false → Admits k.stored d
  | .record r => k.lost = false → (k.ledger.apply r).1 = .ok ()
  | _ => True

end Held

section

variable {β σ : Type} {keep : Keeping β σ} {d o : Deployment} {old : Option Deployment} {earlier later : List Deployment}

theorem put_new (others : ∀ x ∈ earlier, x.id ≠ d.id) : put d earlier = .ok (earlier ++ [d]) := by
  induction earlier with
  | nil => rfl
  | cons x xs ih =>
    rw [put, if_neg (others x List.mem_cons_self), ih fun y mem => others y (List.mem_cons_of_mem _ mem)]
    rfl

theorem put_known (others : ∀ x ∈ earlier, x.id ≠ d.id) (same : o.id = d.id)
    (takes : o.status.isTerminal = true → d = o ∨ recoveryAttached o d = true) :
    put d (earlier ++ o :: later) = .ok (earlier ++ d :: later) := by
  induction earlier with
  | nil =>
    rw [List.nil_append, put, if_pos same, if_neg]
    · rfl
    · rintro ⟨ended, changed, other⟩
      rcases takes ended with same | attached
      · exact changed same
      · rw [attached] at other
        cases other
  | cons x xs ih =>
    rw [List.cons_append, put, if_neg (others x List.mem_cons_self), ih fun y mem => others y (List.mem_cons_of_mem _ mem)]
    rfl

/-- A snapshot that the journal may hold takes the place of the one before. -/
theorem put_admitted (others : ∀ x ∈ earlier, x.id ≠ d.id) (admits : Admits old d) (last : old = none → later = []) :
    put d (earlier ++ old.toList ++ later) = .ok (earlier ++ d :: later) := by
  cases old with
  | none =>
    rw [last rfl, Option.toList_none, List.append_nil, List.append_nil]
    exact put_new others
  | some o =>
    obtain ⟨same, takes⟩ := admits o rfl
    rw [Option.toList_some, List.append_assoc]
    exact put_known others same takes

/-! ## What a history leaves in the file -/

/-- A state with the parts that a history may change. -/
def State.holding (st : State σ) (earlier later : List Deployment) (k : Held) : State σ :=
  { st with deployments := earlier ++ k.stored.toList ++ later, ledger := k.ledger }

theorem applyAll_append {st st' : State σ} {ls : List (Line β)} {i : Nat}
    (first : st.applyAll keep i ls = .ok st') :
    ∃ j, ∀ more, st.applyAll keep i (ls ++ more) = st'.applyAll keep j more := by
  induction ls generalizing st i with
  | nil =>
    cases first
    exact ⟨i, fun _ => rfl⟩
  | cons l ls ih =>
    rw [State.applyAll] at first
    cases applied : st.apply keep i l with
    | error e => rw [applied] at first; cases first
    | ok st₁ =>
      rw [applied] at first
      obtain ⟨j, rest⟩ := ih first
      refine ⟨j, fun more => ?_⟩
      rw [List.cons_append, State.applyAll, applied]
      exact rest more

theorem storedLines_cons {e : Event EngineSig} {h : History EngineSig} :
    (storedLines (e :: h) : List (Line β)) = (storedLine? e).toList ++ storedLines h := by
  unfold storedLines
  rw [List.filterMap_cons]
  cases (storedLine? e : Option (Line β)) with
  | none => rfl
  | some _ => rfl

theorem storedLine_none {e : Event EngineSig} (unstored : (written? e).any Written.isStored = false) :
    (storedLine? e : Option (Line β)) = none := by
  obtain ⟨op, w⟩ := e
  cases op with
  | persist _ | record _ => exact if_neg fun stored => absurd (unstored.symm.trans stored) Bool.false_ne_true
  | _ => rfl

theorem Held.see_unstored {k : Held} {e : Event EngineSig} (unstored : (written? e).any Written.isStored = false) :
    (k.see e).stored = k.stored ∧ (k.see e).ledger = k.ledger := by
  obtain ⟨op, w⟩ := e
  cases op with
  | persist _ | record _ =>
    have none_ : w.isStored = false := unstored
    exact ⟨by simp [Held.see, none_], by simp [Held.see, none_]⟩
  | _ => exact ⟨rfl, rfl⟩

theorem Held.see_lost {k : Held} {e : Event EngineSig} :
    (k.see e).lost = (k.lost || (written? e).any fun w => !w.isAcknowledged) := by
  obtain ⟨op, w⟩ := e
  cases op with
  | persist _ | record _ => rfl
  | _ => exact (Bool.or_false _).symm

theorem Held.failed_lost {P : Prop} {k : Held} {r : LedgerRecord} {e : JournalError} {stored : Bool}
    (open_ : (k.see ⟨.record r, .failed e stored⟩).lost = false) : P :=
  absurd ((Bool.or_true k.lost).symm.trans open_) Bool.noConfusion

theorem Held.see_known {k : Held} {e : Event EngineSig} (none_ : (k.see e).stored = none) : k.stored = none := by
  obtain ⟨op, w⟩ := e
  cases op with
  | persist d =>
    have none_ : (if w.isStored then some d else k.stored) = none := none_
    split at none_
    · cases none_
    · exact none_
  | _ => exact none_

theorem apply_ledger {st : State σ} {r : LedgerRecord} {i : Nat} (accepted : (st.ledger.apply r).1 = .ok ()) :
    st.apply keep i (.ledger r) = .ok { st with ledger := (st.ledger.apply r).2 } := by
  unfold State.apply
  dsimp only
  generalize st.ledger.apply r = out at accepted
  obtain ⟨_, ledger⟩ := out
  cases accepted
  rfl

theorem apply_snapshot {st : State σ} {i : Nat} {ds : List Deployment} (takes : put d st.deployments = .ok ds) :
    st.apply keep i (.snapshot d) = .ok { st with deployments := ds } := by
  show (put d st.deployments >>= _) = _
  rw [takes]
  rfl

/-- What is stored while the file takes it. -/
theorem apply_stored (keep : Keeping β σ) (st : State σ) (i : Nat) {e : Event EngineSig} {k : Held}
    (takes : k.Takes e.op) (open_ : k.lost = false) (stored : (written? e).any Written.isStored = true)
    (others : ∀ d, e.op = .persist d → ∀ x ∈ earlier, x.id ≠ d.id) (last : k.stored = none → later = []) :
    ∃ l : Line β, storedLine? e = some l ∧
      (st.holding earlier later k).apply keep i l = .ok (st.holding earlier later (k.see e)) := by
  obtain ⟨op, w⟩ := e
  cases op with
  | persist d =>
    have is : w.isStored = true := stored
    refine ⟨.snapshot d, if_pos is, ?_⟩
    rw [apply_snapshot (put_admitted (others d rfl) (takes open_) last)]
    simp [State.holding, Held.see, is]
  | record r =>
    have is : w.isStored = true := stored
    refine ⟨.ledger r, if_pos is, ?_⟩
    have accepted : (k.ledger.apply r).1 = .ok () := takes open_
    rw [apply_ledger accepted]
    simp [State.holding, Held.see, is]
  | _ => cases stored

/-- What a history stored, the replay takes, and it comes to what the history left. -/
theorem applyAll_stored (keep : Keeping β σ) (st : State σ) (i : Nat) {h : History EngineSig} {k : Held}
    (lawful : Lawful Held.see Held.Takes k h) (shut : Sealed h)
    (silent : k.lost = true → ∀ e ∈ h, (written? e).any Written.isStored = false)
    (others : ∀ e ∈ h, ∀ d, e.op = .persist d → ∀ x ∈ earlier, x.id ≠ d.id) (last : k.stored = none → later = []) :
    (st.holding earlier later k).applyAll keep i (storedLines h) = .ok (st.holding earlier later (h.seen Held.see k)) := by
  induction h generalizing k i with
  | nil => rfl
  | cons e h ih =>
    obtain ⟨after, shut'⟩ := List.pairwise_cons.mp shut
    have others' : ∀ e ∈ h, ∀ d, e.op = .persist d → ∀ x ∈ earlier, x.id ≠ d.id := fun e mem =>
      others e (List.mem_cons_of_mem _ mem)
    have silent' : (k.see e).lost = true → ∀ e ∈ h, (written? e).any Written.isStored = false := by
      rw [Held.see_lost, Bool.or_eq_true]
      rintro (lost | failed) e' mem
      · exact silent lost e' (List.mem_cons_of_mem _ mem)
      · exact after e' mem failed
    show _ = Except.ok (st.holding earlier later (History.seen Held.see (k.see e) h))
    rw [storedLines_cons]
    cases stored : (written? e).any Written.isStored with
    | false =>
      obtain ⟨same, ledger⟩ := k.see_unstored stored
      have held : st.holding earlier later k = st.holding earlier later (k.see e) := by
        unfold State.holding
        rw [same, ledger]
      rw [storedLine_none stored, held]
      exact ih _ lawful.2 shut' silent' others' (same ▸ last)
    | true =>
      have open_ : k.lost = false := by
        cases lost : k.lost with
        | false => rfl
        | true => exact absurd (stored.symm.trans (silent lost e List.mem_cons_self)) Bool.noConfusion
      obtain ⟨l, line, applied⟩ := apply_stored keep st i lawful.1 open_ stored
        (others e List.mem_cons_self) last
      rw [line, Option.toList_some, List.singleton_append, State.applyAll, applied]
      exact ih _ lawful.2 shut' silent' others' fun none_ => last (Held.see_known none_)

end

/-! ## What a run writes -/

section

variable {cfg : RunConfig} {d d' : Deployment} {ctx : Context} {h : History EngineSig}

/-- The file holds the ledger of the run, and no other end of its deployment than the run knows of. -/
structure Agrees (d : Deployment) (l : Ledger) (k : Held) : Prop where
  ledger : k.lost = false → k.ledger = l
  ended : k.lost = false → ∀ o, k.stored = some o → o.id = d.id ∧ (o.status.isTerminal = true → o = d)

theorem Agrees.persisted {l : Ledger} {k : Held} {w : Written} (agrees : Agrees d l k) :
    Agrees d l (k.see ⟨.persist d, w⟩) := by
  have before : (k.see ⟨.persist d, w⟩).lost = false → k.lost = false := fun open_ => (Bool.or_eq_false_iff.mp open_).1
  refine ⟨fun open_ => agrees.ledger (before open_), fun open_ o found => ?_⟩
  have found : (if w.isStored then some d else k.stored) = some o := found
  split at found
  · cases found
    exact ⟨rfl, fun _ => rfl⟩
  · exact agrees.ended (before open_) o found

theorem Agrees.recorded {l l' : Ledger} {k : Held} {r : LedgerRecord} (agrees : Agrees d l k)
    (applies : l.apply r = (.ok (), l')) :
    Agrees d l' (k.see ⟨.record r, .acknowledged⟩) ∧ ∀ e stored, Agrees d l (k.see ⟨.record r, .failed e stored⟩) := by
  refine ⟨⟨fun open_ => ?_, fun open_ => agrees.ended (Bool.or_eq_false_iff.mp open_).1⟩, fun e stored => ?_⟩
  · show (k.ledger.apply r).2 = l'
    rw [agrees.ledger (Bool.or_eq_false_iff.mp open_).1, applies]
  · exact ⟨Held.failed_lost, Held.failed_lost⟩

theorem Agrees.takes {l l' : Ledger} {k : Held} {r : LedgerRecord} (agrees : Agrees d l k)
    (applies : l.apply r = (.ok (), l')) : k.Takes (.record r) := by
  intro open_
  rw [agrees.ledger open_, applies]

/-- While a run goes on, the file takes what it writes. -/
theorem upholds_agrees (cfg : RunConfig) (previous : Option PreviousRelease) :
    Upholds cfg previous Held.see Held.Takes (fun _ _ => True) (fun _ _ => True) Agrees where
  quiet {_ _ _ op} isQuiet inv := by
    cases op with
    | nowMs | persist _ | record _ | call _ _ | pinnedConfig => cases isQuiet
    | _ => exact ⟨trivial, fun _ => inv⟩
  clock inv := ⟨trivial, fun _ => ⟨inv, trivial⟩⟩
  call _ _ inv := ⟨trivial, fun _ => inv⟩
  record _ applies inv := ⟨inv.takes applies, inv.recorded applies⟩
  persist inv := ⟨fun open_ o found => (inv.ended open_ o found).imp id fun same ended => .inl (same ended).symm,
    fun _ => inv.persisted⟩
  edit running edit inv := by
    refine ⟨inv.ledger, fun open_ o found => ?_⟩
    obtain ⟨own, same⟩ := inv.ended open_ o found
    refine ⟨own.trans edit.kin.id.symm, fun ended => ?_⟩
    rw [← same ended, ended] at running
    cases running
  planned := trivial
  actual inv := ⟨trivial, fun _ => ⟨inv, fun _ _ => trivial⟩⟩
  keeps _ := trivial

theorem run_taken {q : Program EngineSig (Except EngineError Report × Deploy.Run)}
    (follows : Program.Follows (runDeploymentConfirmed d ctx cfg) h q) :
    Lawful Held.see Held.Takes ⟨none, cfg.priorLedger, false⟩ h := by
  have start : Agrees d cfg.priorLedger ⟨none, cfg.priorLedger, false⟩ := ⟨fun _ => rfl, fun _ o none_ => by cases none_⟩
  have upheld := run_ends (upholds_agrees cfg (previousOf ctx cfg)) (r := Deploy.Run.start cfg d) start
  exact (Program.Obeys.follows upheld follows).2

/-! ## What an explicit recovery writes -/

/-- If the recovery step of the interrupted deployment is running, its restoration is under way. -/
def Mended (d : Deployment) : Prop :=
  d.status = .interrupted → (d.step .recovery).status = .running → ∃ r, d.recovery = some r ∧ r.outcome = .inProgress

/-- The deployment is interrupted, and the file holds the last snapshot of it. -/
structure Attaches (d : Deployment) (l : Ledger) (k : Held) : Prop where
  interrupted : d.status = .interrupted
  mended : Mended d
  ledger : k.lost = false → k.ledger = l
  last : k.lost = false → k.stored = some d

/-- The file takes what is written, and a snapshot is mended. -/
def Mends (k : Held) (op : EngineOp) : Prop := k.Takes op ∧ ∀ x, op = .persist x → Mended x

theorem Attaches.persisted {l : Ledger} {k : Held} {w : Written} (attaches : Attaches d l k)
    (interrupted : d'.status = .interrupted) (mended : Mended d') : Attaches d' l (k.see ⟨.persist d', w⟩) := by
  refine ⟨interrupted, mended, fun open_ => attaches.ledger (Bool.or_eq_false_iff.mp open_).1, fun open_ => ?_⟩
  have acked : (!w.isAcknowledged) = false := (Bool.or_eq_false_iff.mp open_).2
  have stored : w.isStored = true := by
    cases w with
    | acknowledged => rfl
    | failed _ _ => cases acked
  exact if_pos stored

/-- The next snapshot is the last one again, or attaches a recovery to it. -/
theorem Attaches.mends {l : Ledger} {k : Held} (attaches : Attaches d l k) (own : d'.id = d.id)
    (next : d' = d ∨ recoveryAttached d d' = true) (mended : Mended d') : Mends k (.persist d') := by
  refine ⟨fun open_ o found => ?_, fun x same => ?_⟩
  · cases (attaches.last open_).symm.trans found
    exact ⟨own.symm, fun _ => next⟩
  · cases same
    exact mended

theorem beginExplicitRecovery_attached {budgetMs ms : Nat} (begun : d.beginExplicitRecovery budgetMs ms = .ok d') :
    recoveryAttached d d' = true := by
  have can : d.canRecoverExplicitly = true := by
    unfold Deployment.beginExplicitRecovery at begun
    split at begun
    next can => exact can
    next => cases begun
  simp only [Deployment.canRecoverExplicitly, Bool.and_eq_true, decide_eq_true_iff, Option.isNone_iff_eq_none] at can
  obtain ⟨⟨⟨status, began⟩, none_⟩, -⟩ := can
  rw [Deployment.beginExplicitRecovery_rest begun]
  simp [recoveryAttached, sameIdentity, recoveryMoves, status, none_, began, CutoverState.isFailed]

theorem finishRecovery_rest {outcome : RecoveryOutcome} {ms : Nat} {d₁ : Deployment}
    (finished : d.finishRecovery outcome ms = .ok d₁) : ∃ r i, d.recovery = some r ∧ r.outcome = .inProgress ∧
      d₁ = { d with recovery := some { r with outcome := outcome, finishedMs := some ms }, interruption := i } := by
  unfold Deployment.finishRecovery at finished
  split at finished
  next r found =>
    split at finished
    next moves =>
      cases finished
      split
      · exact ⟨r, _, found, moves.1, rfl⟩
      · exact ⟨r, _, found, moves.1, rfl⟩
    next => cases finished
  next => cases finished

theorem restored_attached {outcome : RecoveryOutcome} {ok : Bool} {note : String} {ms : Nat} {d₁ : Deployment}
    (interrupted : d.status = .interrupted) (finished : d.finishRecovery outcome ms = .ok d₁)
    (stepped : d₁.finishStep .recovery ok note ms = .ok d') :
    recoveryAttached d d' = true ∧ d'.status = .interrupted ∧ Mended d' := by
  obtain ⟨r, i, found, inProgress, rfl⟩ := finishRecovery_rest finished
  have moved := (Deployment.finishStep_ok stepped).2
  refine ⟨?_, moved.status_eq.trans interrupted, fun _ running => ?_⟩
  · rw [moved.rest]
    simp [recoveryAttached, sameIdentity, recoveryMoves, interrupted, found, inProgress]
  · rw [moved.moved] at running
    cases ok <;> cases running

theorem upholds_attaches (cfg : RunConfig) (prev : PreviousRelease) :
    UpholdsRecovery cfg prev Held.see Mends (fun _ _ => True) (fun _ _ => True) Attaches where
  quiet {_ _ _ op} isQuiet inv := by
    cases op with
    | nowMs | persist _ | record _ | call _ _ | pinnedConfig => cases isQuiet
    | _ => exact ⟨⟨trivial, fun _ same => by cases same⟩, fun _ => inv⟩
  clock inv := ⟨⟨trivial, fun _ same => by cases same⟩, fun _ => ⟨inv, trivial⟩⟩
  call _ _ inv := ⟨⟨trivial, fun _ same => by cases same⟩, fun _ => inv⟩
  record _ applies inv := by
    refine ⟨⟨fun open_ => by rw [inv.ledger open_, applies], fun _ same => by cases same⟩, ?_, fun e stored => ?_⟩
    · refine { inv with ledger := fun open_ => ?_, last := fun open_ => inv.last (Bool.or_eq_false_iff.mp open_).1 }
      have kept := inv.ledger (Bool.or_eq_false_iff.mp open_).1
      simp [Held.see, Written.isStored, kept, applies]
    · exact { inv with ledger := Held.failed_lost, last := Held.failed_lost }
  persist inv := ⟨inv.mends rfl (.inl rfl) inv.mended, fun _ => inv.persisted inv.interrupted inv.mended⟩
  edit running _ inv := by
    rw [inv.interrupted] at running
    cases running
  planned := trivial
  actual inv := ⟨⟨trivial, fun _ same => by cases same⟩, fun _ => ⟨inv, fun _ _ => trivial⟩⟩
  keeps _ := trivial
  begins _ _ begun inv := by
    obtain ⟨-, own, status, -, ⟨r, recovery, inProgress⟩, -⟩ := Deployment.beginExplicitRecovery_ok begun
    have mended : Mended _ := fun _ _ => ⟨r, recovery, inProgress⟩
    exact ⟨inv.mends own (.inr (beginExplicitRecovery_attached begun)) mended,
      fun _ => inv.persisted (status.trans inv.interrupted) mended⟩
  ends _ finished stepped inv := by
    obtain ⟨attached, status, mended⟩ := restored_attached inv.interrupted finished stepped
    exact ⟨inv.mends (restored_kin finished stepped).id (.inr attached) mended, fun _ => inv.persisted status mended⟩

theorem recover_taken {previous : PreviousRelease} {q : Program EngineSig (Except EngineError Report × Deploy.Run)}
    (can : d.canRecoverExplicitly = true) (mended : Mended d)
    (follows : Program.Follows (recoverCutover d previous cfg) h q) :
    Lawful Held.see Mends ⟨some d, cfg.priorLedger, false⟩ h := by
  simp only [Deployment.canRecoverExplicitly, Bool.and_eq_true, decide_eq_true_iff] at can
  have start : Attaches d cfg.priorLedger ⟨some d, cfg.priorLedger, false⟩ :=
    ⟨can.1.1.1, mended, fun _ => rfl, fun _ => rfl⟩
  have upheld := recover_ends (upholds_attaches cfg { previous with config := cfg.previous }) (r := Deploy.Run.start cfg d) start
  exact (Program.Obeys.follows upheld follows).2

/-! ## What a reconciliation writes -/

/-- The file takes what is written, which is no snapshot. -/
def Booked (k : Held) (op : EngineOp) : Prop := k.Takes op ∧ ∀ x, op ≠ .persist x

abbrev Books {α : Type} (x : Engine Ledger EngineError α) : Prop :=
  x.Stable Held.see Booked fun l k => k.lost = false → k.ledger = l

theorem writeRecord_books {r : LedgerRecord} : Books (writeRecord r) := by
  intro l k kept
  refine meets_bind.mpr (meets_get.mpr ?_)
  split
  · exact kept
  next l' applies =>
    have takes : Booked k (.record r) := ⟨fun open_ => by rw [kept open_, applies], fun _ same => by cases same⟩
    refine meets_bind.mpr (meets_ask.mpr ⟨takes, fun answer => ?_⟩)
    cases answer with
    | acknowledged =>
      intro open_
      have same := kept (Bool.or_eq_false_iff.mp open_).1
      simp [Held.see, Written.isStored, same, applies]
    | failed e stored => exact Held.failed_lost

theorem now_books : Books (now : Engine Ledger EngineError Nat) :=
  .perform fun _ _ kept => ⟨⟨trivial, fun _ same => by cases same⟩, fun _ => kept⟩

theorem attempt_books {entry : EntryRef} : Books (attempt entry) :=
  now_books.bind fun _ => writeRecord_books

theorem settle_books {entry : EntryRef} {outcome : CleanupOutcome} : Books (settle entry outcome) :=
  now_books.bind fun _ => writeRecord_books

theorem adoptEntry_books {entry : EntryRef} {o : Observed} : Books (adoptEntry entry o) :=
  now_books.bind fun _ => writeRecord_books

theorem removeObserved_books {entry : EntryRef} {o : Observed} : Books (removeObserved entry o) := by
  refine attempt_books.bind fun _ => Stable.get.bind fun l => ?_
  split
  · refine (Stable.perform fun _ _ kept => ⟨⟨trivial, fun _ same => by cases same⟩, fun _ => kept⟩).bind fun _ => ?_
    exact settle_books
  · exact .throw

theorem executeAction_books {a : Action} : Books (executeAction a) := by
  cases a with
  | reportOnly o why => exact .pure
  | adopt entry o => exact adoptEntry_books.bind fun _ => .pure
  | releaseLease entry | markAbsent entry | refuse entry why =>
    exact attempt_books.bind fun _ => settle_books.bind fun _ => .pure
  | remove entry o adopt =>
    have rest := @removeObserved_books entry o
    cases adopt with
    | true => exact adoptEntry_books.bind fun _ => rest.bind fun _ => .pure
    | false => exact rest.bind fun _ => .pure

theorem executeActions_books {actions : List Action} : Books (executeActions actions) := by
  induction actions with
  | nil => exact .pure
  | cons a actions ih => exact executeAction_books.bind fun _ => ih.bind fun _ => .pure

theorem releaseLeases_books {leases : List Action} : Books (releaseLeases leases) := by
  induction leases with
  | nil => exact .pure
  | cons a leases ih =>
    refine Stable.bind (Stable.get.bind fun l => ?_) fun _ => ih.bind fun _ => .pure
    split
    · exact executeActions_books
    · exact .pure

theorem failActions_books {why : String} {actions : List Action} : Books (failActions why actions) := by
  induction actions with
  | nil => exact .pure
  | cons a actions ih =>
    cases a with
    | releaseLease entry | markAbsent entry => exact attempt_books.bind fun _ => settle_books.bind fun _ => ih
    | reportOnly _ _ | adopt _ _ | refuse _ _ | remove _ _ _ => exact ih

theorem reconcile_books {ended : List (DeploymentId × EndState)} : Books (reconcile ended) := by
  refine (Stable.perform fun _ _ kept => ⟨⟨trivial, fun _ same => by cases same⟩, fun _ => kept⟩).bind fun listed => ?_
  cases listed with
  | ok observed =>
    exact Stable.get.bind fun l => executeActions_books.bind fun _ => releaseLeases_books.bind fun _ => .pure
  | error e => exact Stable.get.bind fun l => failActions_books.bind fun _ => .pure

theorem reconcile_taken {l : Ledger} {ended : List (DeploymentId × EndState)} {h : History EngineSig}
    {q : Program EngineSig (Except EngineError (List Observed) × Ledger)}
    (follows : Program.Follows ((Deploy.reconcile ended).toProgram l) h q) : Lawful Held.see Booked ⟨none, l, false⟩ h :=
  (Program.Obeys.follows (reconcile_books l ⟨none, l, false⟩ fun _ => rfl) follows).2

/-! ## What a start writes -/

/-- The snapshots that a start writes. -/
def startLines {β : Type} (ds : List Deployment) (nowMs : Nat) : List (Line β) :=
  ds.filterMap fun d => if (recoverDeployment d nowMs).1 = d then none else some (.snapshot (recoverDeployment d nowMs).1)

/-- What a start changes of a deployment that ended, the journal takes as a recovery attached to it. -/
theorem recoverDeployment_attached {ms : Nat} (mended : Mended d) (ended : d.status.isTerminal = true) :
    (recoverDeployment d ms).1 = d ∨ recoveryAttached d (recoverDeployment d ms).1 = true := by
  unfold recoverDeployment
  rw [if_pos ended]
  dsimp only
  split
  next interrupted =>
    by_cases going : ∃ r, d.recovery = some r ∧ r.outcome = .inProgress
    · obtain ⟨r, found, inProgress⟩ := going
      right
      simp [recoveryAttached, sameIdentity, recoveryMoves, closeUnfinishedRecovery, interrupted, found, inProgress]
    · left
      refine Closed.close ⟨fun r found inProgress => going ⟨r, found, inProgress⟩, fun running => ?_⟩
      exact going (mended interrupted running)
  next => exact .inl rfl

theorem recoverOnStart_map {ds : List Deployment} {ms : Nat} :
    (recoverOnStart ds ms).1 = ds.map fun d => (recoverDeployment d ms).1 := by
  induction ds with
  | nil => rfl
  | cons d ds ih => exact congrArg (_ :: ·) ih

variable {β σ : Type} {keep : Keeping β σ} {st : State σ}

theorem unique_apart {x : Deployment} {ds more : List Deployment} (unique : Keyed.Unique Deployment.id (ds ++ d :: more))
    (mem : x ∈ ds) : x.id ≠ d.id := by
  rw [Keyed.Unique, List.map_append, List.map_cons, List.nodup_append] at unique
  exact unique.2.2 _ (List.mem_map_of_mem mem) _ List.mem_cons_self

theorem unique_again {ds more : List Deployment} (same : d'.id = d.id)
    (unique : Keyed.Unique Deployment.id (ds ++ d :: more)) : Keyed.Unique Deployment.id (ds ++ d' :: more) := by
  simpa [Keyed.Unique, same] using unique

theorem recoverDeployment_mended {ms : Nat} : Mended (recoverDeployment d ms).1 := fun interrupted running =>
  ((recoverDeployment_ended d ms).2 interrupted).step running |>.elim

theorem startLines_cons {ds : List Deployment} {ms : Nat} : (startLines (d :: ds) ms : List (Line β)) =
    (if (recoverDeployment d ms).1 = d then [] else [.snapshot (recoverDeployment d ms).1]) ++ startLines ds ms := by
  unfold startLines
  rw [List.filterMap_cons]
  by_cases same : (recoverDeployment d ms).1 = d
  · rw [if_pos same, if_pos same]
    rfl
  · rw [if_neg same, if_neg same]
    rfl

/-- A start, cut short anywhere: the replay takes its snapshots. -/
theorem applyAll_start (keep : Keeping β σ) (st : State σ) (ms i : Nat) (before : List Deployment) {todo after : List Deployment}
    (unique : Keyed.Unique Deployment.id (before ++ (todo ++ after))) (mended : ∀ d ∈ todo, Mended d) :
    State.applyAll keep { st with deployments := before ++ (todo ++ after) } i (startLines todo ms) =
      .ok { st with deployments := before ++ (todo.map (fun d => (recoverDeployment d ms).1) ++ after) } := by
  induction todo generalizing before i with
  | nil => rfl
  | cons d todo ih =>
    have own : (recoverDeployment d ms).1.id = d.id := (recoverDeployment_alike (l := .new)).id
    have shift : ∀ x (xs : List Deployment), before ++ (x :: xs ++ after) = before ++ [x] ++ (xs ++ after) := by simp
    have rest := ih i (before ++ [(recoverDeployment d ms).1])
      (shift _ todo ▸ unique_again own unique) fun x mem => mended x (List.mem_cons_of_mem _ mem)
    rw [List.map_cons, shift (recoverDeployment d ms).1, ← rest, startLines_cons]
    by_cases same : (recoverDeployment d ms).1 = d
    · rw [if_pos same, List.nil_append, same, shift d]
    · have takes : put (recoverDeployment d ms).1 (before ++ d :: (todo ++ after)) =
          .ok (before ++ (recoverDeployment d ms).1 :: (todo ++ after)) :=
        put_known (fun x mem => own.symm ▸ unique_apart unique mem) own.symm fun ended =>
          recoverDeployment_attached (mended d List.mem_cons_self) ended
      rw [if_neg same, List.singleton_append, State.applyAll, List.cons_append, apply_snapshot takes, List.append_assoc]
      rfl

end

/-! ## The journal of the program -/

/-- A line that is neither a snapshot nor about a resource. -/
def Line.IsNote {β : Type} : Line β → Prop
  | .snapshot _ | .ledger _ => False
  | .header _ | .control _ | .other _ => True

section

variable {β σ : Type}

/-- What a reconciliation is told of the deployments: how each of them ended. -/
def endedStates (deployments : List Deployment) : List (DeploymentId × EndState) :=
  deployments.filterMap fun d => (endState d.status).map fun ended => (d.id, ended)

/-- One thing that the program does, the lines it adds to the journal, and the state it comes to: a new deployment runs,
an interrupted one is restored, the process starts, the ledger is reconciled, or another line is written that applies.
Each may be cut short anywhere, a write may fail, and one that failed may be stored. -/
inductive Writes (keep : Keeping β σ) (st : State σ) : List (Line β) → State σ → Prop where
  | note {st' : State σ} {l : Line β} (note : l.IsNote) (applied : st.apply keep 0 l = .ok st') : Writes keep st [l] st'
  | run {d : Deployment} {ctx : Context} {cfg : RunConfig} {h : History EngineSig}
      {q : Program EngineSig (Except EngineError Report × Deploy.Run)} (fresh : d.Fresh) (unbuilt : d.release = none)
      (new : ∀ x ∈ st.deployments, x.id ≠ d.id) (prior : cfg.priorLedger = st.ledger)
      (follows : Program.Follows (runDeploymentConfirmed d ctx cfg) h q) (shut : Sealed h) :
      Writes keep st (storedLines h)
        { st with
          deployments := st.deployments ++ (storedSnapshots h).getLast?.toList
          ledger := st.ledger.absorb (storedRecords h) }
  | recover {earlier later : List Deployment} {d : Deployment} {previous : PreviousRelease} {cfg : RunConfig}
      {h : History EngineSig} {q : Program EngineSig (Except EngineError Report × Deploy.Run)}
      (known : st.deployments = earlier ++ d :: later) (prior : cfg.priorLedger = st.ledger)
      (follows : Program.Follows (recoverCutover d previous cfg) h q) (shut : Sealed h) :
      Writes keep st (storedLines h)
        { st with
          deployments := earlier ++ (storedSnapshots h).getLast?.getD d :: later
          ledger := st.ledger.absorb (storedRecords h) }
  | start {marked rest : List Deployment} (nowMs : Nat) (known : st.deployments = marked ++ rest) :
      Writes keep st (startLines marked nowMs) { st with deployments := (recoverOnStart marked nowMs).1 ++ rest }
  | reconcile {h : History EngineSig} {q : Program EngineSig (Except EngineError (List Observed) × Ledger)}
      (follows : Program.Follows ((Deploy.reconcile (endedStates st.deployments)).toProgram st.ledger) h q)
      (shut : Sealed h) :
      Writes keep st (storedLines h) { st with ledger := st.ledger.absorb (storedRecords h) }

/-- The lines that the program has written, and the state it has come to. -/
inductive Grown (keep : Keeping β σ) : List (Line β) → State σ → Prop where
  | empty : Grown keep [] (State.start keep)
  | more {lines more : List (Line β)} {st st' : State σ} (before : Grown keep lines st) (writes : Writes keep st more st') :
      Grown keep (lines ++ more) st'

variable {keep : Keeping β σ} {lines : List (Line β)} {st st' : State σ} {h : History EngineSig} {k : Held}

theorem seen_stored : (h.seen Held.see k).stored = (storedSnapshots h).getLast?.or k.stored := by
  induction h generalizing k with
  | nil => rfl
  | cons e h ih =>
    have first : storedSnapshots (e :: h) = (storedSnapshot? e).toList ++ storedSnapshots h := by
      unfold storedSnapshots
      rw [List.filterMap_cons]
      cases storedSnapshot? e <;> rfl
    have seen : (k.see e).stored = (storedSnapshot? e).or k.stored := by
      obtain ⟨op, w⟩ := e
      cases op with
      | persist d =>
        show (if w.isStored then some d else k.stored) = (if w.isStored then some d else none).or k.stored
        split <;> rfl
      | _ => rfl
    show (History.seen Held.see (k.see e) h).stored = _
    rw [ih, seen, first]
    cases storedSnapshot? e with
    | none => rfl
    | some d =>
      rw [Option.toList_some, List.singleton_append, List.getLast?_cons]
      cases (storedSnapshots h).getLast? <;> rfl

theorem seen_ledger : (h.seen Held.see k).ledger = k.ledger.absorb (storedRecords h) := by
  induction h generalizing k with
  | nil => rfl
  | cons e h ih =>
    have first : storedRecords (e :: h) = (ledgerRecord? Deploy.Written.isStored e).toList ++ storedRecords h := by
      unfold storedRecords
      rw [List.filterMap_cons]
      cases ledgerRecord? Deploy.Written.isStored e <;> rfl
    have seen : (k.see e).ledger = k.ledger.absorb (ledgerRecord? Deploy.Written.isStored e).toList := by
      obtain ⟨op, w⟩ := e
      cases op with
      | record r =>
        show (if w.isStored then (k.ledger.apply r).2 else k.ledger) =
          k.ledger.absorb (if w.isStored then some r else none).toList
        split <;> rfl
      | _ => rfl
    show (History.seen Held.see (k.see e) h).ledger = _
    rw [ih, seen, first, Ledger.absorb, Ledger.absorb, Ledger.absorb, List.foldl_append]

/-- What the replay comes to, and what it relies on. -/
structure Replays (keep : Keeping β σ) (lines : List (Line β)) (st : State σ) : Prop where
  applied : (State.start keep).applyAll keep 0 lines = .ok st
  unique : Keyed.Unique Deployment.id st.deployments
  mended : ∀ d ∈ st.deployments, Mended d

theorem Replays.append {more : List (Line β)} (replays : Replays keep lines st)
    (next : ∀ i, st.applyAll keep i more = .ok st') (unique : Keyed.Unique Deployment.id st'.deployments)
    (mended : ∀ d ∈ st'.deployments, Mended d) : Replays keep (lines ++ more) st' := by
  obtain ⟨j, rest⟩ := applyAll_append replays.applied
  exact ⟨(rest more).trans (next j), unique, mended⟩

/-- What the snapshots of a history are. -/
theorem last_asked {x : Deployment} (found : (storedSnapshots h).getLast? = some x) : ∃ e ∈ h, e.op = .persist x :=
  mem_storedSnapshots (List.mem_of_getLast? found)

theorem note_deployments {l : Line β} (note : l.IsNote) (applied : st.apply keep 0 l = .ok st') :
    st'.deployments = st.deployments ∧ ∀ i, st.apply keep i l = .ok st' := by
  cases l with
  | snapshot _ | ledger _ => cases note
  | header v => exact ⟨by cases applied; rfl, fun _ => applied⟩
  | control r =>
    refine ⟨?_, fun _ => applied⟩
    unfold State.apply at applied
    dsimp only at applied
    split at applied <;> cases applied
    rfl
  | other r =>
    refine ⟨?_, fun _ => applied⟩
    unfold State.apply at applied
    dsimp only at applied
    split at applied <;> cases applied
    rfl

/-- What a history of one deployment stored, after what was there. -/
theorem Replays.history {rule : Held → EngineOp → Prop} (earlier later : List Deployment) (old : Option Deployment)
    (replays : Replays keep lines st) (known : st.deployments = earlier ++ (old.toList ++ later))
    (lawful : Lawful Held.see rule ⟨old, st.ledger, false⟩ h) (takes : ∀ k op, rule k op → k.Takes op) (shut : Sealed h)
    (others : ∀ e ∈ h, ∀ d, e.op = .persist d → ∀ x ∈ earlier, x.id ≠ d.id)
    (last : old = none → later = []) (unique : ∀ x, (storedSnapshots h).getLast? = some x →
      Keyed.Unique Deployment.id (earlier ++ x :: later) ∧ Mended x) :
    Replays keep (lines ++ storedLines h)
      { st with
        deployments := earlier ++ (((storedSnapshots h).getLast?.or old).toList ++ later)
        ledger := st.ledger.absorb (storedRecords h) } := by
  have lawful' : Lawful Held.see Held.Takes ⟨old, st.ledger, false⟩ h :=
    lawful_iff.mpr fun before e rest split => takes _ _ (lawful_iff.mp lawful before e rest split)
  refine replays.append (fun i => ?_) ?_ ?_
  · have applied := applyAll_stored keep st i lawful' shut (fun lost => by cases lost) others last
    have shape : st.holding earlier later ⟨old, st.ledger, false⟩ = st := by
      unfold State.holding
      rw [List.append_assoc, ← known]
    have seen : st.holding earlier later (h.seen Held.see ⟨old, st.ledger, false⟩) = { st with
        deployments := earlier ++ (((storedSnapshots h).getLast?.or old).toList ++ later)
        ledger := st.ledger.absorb (storedRecords h) } := by
      unfold State.holding
      rw [seen_stored, seen_ledger, List.append_assoc]
    rwa [shape, seen] at applied
  · have before := replays.unique
    rw [known] at before
    cases found : (storedSnapshots h).getLast? with
    | none => exact before
    | some x => exact (unique x found).1
  · have before := replays.mended
    rw [known] at before
    intro d mem
    cases found : (storedSnapshots h).getLast? with
    | none =>
      rw [found, Option.none_or] at mem
      exact before d mem
    | some x =>
      rw [found] at mem
      have mem : d ∈ earlier ++ x :: later := mem
      rcases List.mem_append.mp mem with mem | mem
      · exact before d (List.mem_append_left _ mem)
      · rcases List.mem_cons.mp mem with rfl | mem
        · exact (unique d found).2
        · exact before d (List.mem_append_right _ (List.mem_append_right _ mem))

/-- Step lemma. -/
theorem Replays.writes {more : List (Line β)} (ih : Replays keep lines st) (writes : Writes keep st more st') :
    Replays keep (lines ++ more) st' := by
  cases writes with
  | note note applied =>
    obtain ⟨same, applied⟩ := note_deployments note applied
    refine ih.append (fun i => ?_) (same ▸ ih.unique) (same ▸ ih.mended)
    rw [State.applyAll, applied]
    rfl
  | @run d ctx cfg h q fresh unbuilt new prior follows shut =>
    have traced := run_traced fresh follows
    have named : ∀ e ∈ h, ∀ x, e.op = .persist x → x.id = d.id := fun e mem x persist => by
      have about := traced e mem
      rw [persist] at about
      exact about.id
    have taken := run_taken follows
    rw [prior] at taken
    have history := ih.history st.deployments [] none (List.append_nil _).symm taken (fun _ _ => id) shut
      (fun e mem x persist y inside same => new y inside (same.trans (named e mem x persist))) (fun _ => rfl) ?_
    · simpa using history
    · intro x found
      obtain ⟨e, mem, persist⟩ := last_asked found
      refine ⟨?_, fun marked => absurd marked (run_spares fresh follows e mem x persist)⟩
      refine Keyed.Unique.concat ih.unique (Keyed.lookup_none_iff.mpr fun y inside same => ?_)
      exact new y inside (same.trans (named e mem x persist))
  | @recover earlier later d previous cfg h q known prior follows shut =>
    have before := ih.unique
    rw [known] at before
    cases can : d.canRecoverExplicitly with
    | false =>
      obtain rfl := recover_refused can follows
      have same : ({ st with deployments := earlier ++ d :: later, ledger := st.ledger } : State σ) = st := by rw [← known]
      rw [show storedLines [] = ([] : List (Line β)) from rfl, List.append_nil]
      exact same.symm ▸ ih
    | true =>
      have traced := recover_traced follows
      have named : ∀ e ∈ h, ∀ x, e.op = .persist x → x.id = d.id := fun e mem x persist => by
        have about := traced e mem
        rw [persist] at about
        exact about.id
      have taken := recover_taken can (ih.mended d (by simp [known])) follows
      rw [prior] at taken
      have history := ih.history earlier later (some d) known taken (fun _ _ both => both.1) shut
        (fun e mem x persist y inside => named e mem x persist ▸ unique_apart before inside) (fun none_ => by cases none_) ?_
      · cases last : (storedSnapshots h).getLast? with
        | none => simpa [last] using history
        | some x => simpa [last] using history
      · intro x found
        obtain ⟨e, mem, persist⟩ := last_asked found
        obtain ⟨earlier', rest, split⟩ := List.append_of_mem mem
        have mends := lawful_iff.mp taken earlier' e rest split
        exact ⟨unique_again (named e mem x persist) before, mends.2 x persist⟩
  | @start marked rest nowMs known =>
    have unique := ih.unique
    have mended := ih.mended
    rw [known] at unique mended
    have same : ∀ x : Deployment, (recoverDeployment x nowMs).1.id = x.id := fun _ => (recoverDeployment_alike (l := .new)).id
    refine ih.append (fun i => ?_) ?_ fun d mem => ?_
    · have applied := applyAll_start keep st nowMs i [] unique fun d mem => mended d (List.mem_append_left _ mem)
      rw [List.nil_append, ← known] at applied
      rw [recoverOnStart_map]
      exact applied
    · rw [recoverOnStart_map]
      simpa [Keyed.Unique, List.map_map, Function.comp_def, same] using unique
    · rw [recoverOnStart_map] at mem
      rcases List.mem_append.mp mem with mem | mem
      · obtain ⟨x, -, rfl⟩ := List.mem_map.mp mem
        exact recoverDeployment_mended
      · exact mended d (List.mem_append_right _ mem)
  | @reconcile h q follows shut =>
    have taken := reconcile_taken follows
    have silent : ∀ e ∈ h, ∀ x, e.op ≠ .persist x := by
      intro e mem
      obtain ⟨before, rest, split⟩ := List.append_of_mem mem
      exact (lawful_iff.mp taken before e rest split).2
    have none_ : (storedSnapshots h).getLast? = none := by
      cases found : (storedSnapshots h).getLast? with
      | none => rfl
      | some x =>
        obtain ⟨e, mem, persist⟩ := last_asked found
        exact absurd persist (silent e mem x)
    have history := ih.history st.deployments [] none (List.append_nil _).symm taken (fun _ _ both => both.1) shut
      (fun e mem x persist => absurd persist (silent e mem x)) (fun _ => rfl) fun x found => by
        rw [none_] at found
        cases found
    simpa [none_] using history

/-- Run lemma. -/
theorem Grown.replays (grown : Grown keep lines st) : Replays keep lines st := by
  induction grown with
  | empty => exact ⟨rfl, List.nodup_nil, fun d mem => by cases mem⟩
  | more _ writes ih => exact ih.writes writes

/-- A part of what was written before, or all of it and a part of what was written last. -/
theorem cut_cases {cut more : List (Line β)} (part : cut <+: lines ++ more) :
    cut <+: lines ∨ ∃ inner, inner <+: more ∧ cut = lines ++ inner := by
  obtain ⟨rest, whole⟩ := part
  rcases List.append_eq_append_iff.mp whole with ⟨inner, rfl, -⟩ | ⟨inner, rfl, rfl⟩
  · exact .inl (List.prefix_append _ _)
  · exact .inr ⟨inner, List.prefix_append _ _, rfl⟩

/-- What was done may as well have been cut short. -/
theorem Writes.cut {more inner : List (Line β)} (writes : Writes keep st more st') (part : inner <+: more) :
    inner = [] ∨ ∃ st', Writes keep st inner st' := by
  cases writes with
  | @note _ l note applied =>
    rcases List.prefix_concat_iff.mp (show inner <+: [] ++ [l] from part) with rfl | none_
    · exact .inr ⟨_, .note note applied⟩
    · exact .inl (List.prefix_nil.mp none_)
  | @run d ctx cfg h q fresh unbuilt new prior follows shut =>
    obtain ⟨k, inside, rfl⟩ := List.prefix_filterMap_iff.mp part
    obtain ⟨r, follows⟩ := follows.take k.length
    rw [← List.prefix_iff_eq_take.mp inside] at follows
    exact .inr ⟨_, .run fresh unbuilt new prior follows (shut.sublist inside.sublist)⟩
  | @recover earlier later d previous cfg h q known prior follows shut =>
    obtain ⟨k, inside, rfl⟩ := List.prefix_filterMap_iff.mp part
    obtain ⟨r, follows⟩ := follows.take k.length
    rw [← List.prefix_iff_eq_take.mp inside] at follows
    exact .inr ⟨_, .recover known prior follows (shut.sublist inside.sublist)⟩
  | @start marked rest nowMs known =>
    obtain ⟨some_, ⟨others, rfl⟩, rfl⟩ := List.prefix_filterMap_iff.mp part
    exact .inr ⟨_, .start nowMs (known.trans (List.append_assoc _ _ _))⟩
  | @reconcile h q follows shut =>
    obtain ⟨k, inside, rfl⟩ := List.prefix_filterMap_iff.mp part
    obtain ⟨r, follows⟩ := follows.take k.length
    rw [← List.prefix_iff_eq_take.mp inside] at follows
    exact .inr ⟨_, .reconcile follows (shut.sublist inside.sublist)⟩

/-- Every start of the journal is a journal: what was done last was cut short. -/
theorem Grown.cut {cut : List (Line β)} (grown : Grown keep lines st) (part : cut <+: lines) :
    ∃ st', Grown keep cut st' := by
  induction grown with
  | empty =>
    rw [List.prefix_nil.mp part]
    exact ⟨_, .empty⟩
  | more before writes ih =>
    rcases cut_cases part with part | ⟨inner, within, rfl⟩
    · exact ih part
    · rcases writes.cut within with rfl | ⟨st', writes⟩
      · rw [List.append_nil]
        exact ⟨_, before⟩
      · exact ⟨st', before.more writes⟩

/-- **Crash-consistent replay.** Whatever the program has done, each part of it cut short anywhere: the replay takes
every line of the journal, and comes to the state that the program had come to. So it does of every start of the
journal, which is what a crash leaves. -/
theorem grown_replays (keep : Keeping β σ) (lines : List (Line β)) (st : State σ) (grown : Grown keep lines st) :
    replay keep lines = (st.check keep).map (fun _ => st) ∧ ∀ cut, cut <+: lines →
      ∃ st', Grown keep cut st' ∧ replay keep cut = (st'.check keep).map fun _ => st' := by
  have replayed : ∀ {ls : List (Line β)} {s : State σ}, Grown keep ls s →
      replay keep ls = (s.check keep).map fun _ => s := by
    intro ls s grown
    rw [replay, grown.replays.applied]
    show (s.check keep >>= fun _ => Except.ok s) = _
    cases s.check keep <;> rfl
  refine ⟨replayed grown, fun cut part => ?_⟩
  obtain ⟨st', grown'⟩ := grown.cut part
  exact ⟨st', grown', replayed grown'⟩

end

/-! ## A run cut short at its first write -/

namespace FirstWrite

open Replaced

def keep : Keeping Unit Unit := ⟨fun _ => .ok (), (), fun _ _ => .ok (), fun _ _ => .ok (), fun _ _ => .ok ()⟩

def running : Deployment := { queued with status := .running, startedMs := some 5 }

/-- The write is stored, and was reported as failed. -/
def history : History EngineSig := [⟨.nowMs, (5 : Nat)⟩, ⟨.persist running, Deploy.Written.failed .crash true⟩]

def state : State Unit := { State.start keep with deployments := (recoverOnStart [running] 9).1 }

theorem grown : Grown keep ([] ++ storedLines history ++ startLines [running] 9) state := by
  have asks : ∃ next next', runDeploymentConfirmed queued ctx cfg = .ask .nowMs next ∧
      next (5 : Nat) = .ask (.persist running) next' := ⟨_, _, rfl, rfl⟩
  obtain ⟨next, next', first, second⟩ := asks
  have follows : Program.Follows (runDeploymentConfirmed queued ctx cfg) history (next' (.failed .crash true)) := by
    have rest : Program.Follows (next (5 : Nat)) [⟨.persist running, Deploy.Written.failed .crash true⟩]
        (next' (.failed .crash true)) := by
      rw [second]
      exact .step _ (.here _)
    rw [first]
    exact .step _ rest
  have shut : Sealed history := by simp [Sealed, history, written?]
  have run : Grown keep _ _ :=
    (@Grown.empty Unit Unit keep).more (.run queued_fresh rfl (fun x mem => by cases mem) rfl follows shut)
  exact run.more (.start 9 rfl)

end FirstWrite

theorem grown_replays_first_write :
    replay FirstWrite.keep ([] ++ storedLines FirstWrite.history ++ startLines [FirstWrite.running] 9) =
        (FirstWrite.state.check FirstWrite.keep).map (fun _ => FirstWrite.state) ∧
      ∀ cut, cut <+: [] ++ storedLines FirstWrite.history ++ startLines [FirstWrite.running] 9 →
        ∃ st', Grown FirstWrite.keep cut st' ∧ replay FirstWrite.keep cut = (st'.check FirstWrite.keep).map fun _ => st' :=
  grown_replays FirstWrite.keep _ _ FirstWrite.grown

end Harpoon.Journal
