import Harpoon.Laws.Reachable
import Harpoon.Laws.Trail
import Harpoon.Laws.Upheld

/-!
# What a run leaves of everything else

A run is about one deployment: its snapshots are of that deployment, its ledger records are about it, and the
calls that concern another release concern the one it replaces. So the entries of other deployments stay as
they are, in the ledger in memory and on disk.
-/

namespace Harpoon.Deploy

open Interact Process

/-! ## The deployment -/

/-- What a run keeps of its deployment. -/
structure Descends (previous : Option PreviousRelease) (d₀ d : Deployment) : Prop where
  id : d.id = d₀.id
  app : d.applicationId = d₀.applicationId
  rollbackTo : d.rollbackTo = d₀.rollbackTo
  /-- Only a cutover that began is recovered. -/
  recovered : d.recovery.isSome = true → d.cutover.hasBegun = true
  /-- A cutover that began says which release it replaces. -/
  replaced : d.cutover.hasBegun = true → d.replaces = previous.map (·.release)

section

variable {cfg : RunConfig} {previous : Option PreviousRelease} {d₀ d d' : Deployment} {Time : Nat → Prop}
  {Pin : ReleaseConfig → Prop} {s : Step} {target : StepStatus}

theorem Deployment.Fresh.descends (fresh : d₀.Fresh) : Descends previous d₀ d₀ where
  id := rfl
  app := rfl
  rollbackTo := rfl
  recovered some := by rw [fresh.recovery] at some; cases some
  replaced begun := by rw [fresh.cutover] at begun; cases begun

theorem Descends.congr (from_ : Descends previous d₀ d) (id : d'.id = d.id) (app : d'.applicationId = d.applicationId)
    (rollbackTo : d'.rollbackTo = d.rollbackTo) (cutover : d'.cutover = d.cutover) (recovery : d'.recovery = d.recovery)
    (replaces : d'.replaces = d.replaces) : Descends previous d₀ d' where
  id := id.trans from_.id
  app := app.trans from_.app
  rollbackTo := rollbackTo.trans from_.rollbackTo
  recovered some := cutover ▸ from_.recovered (recovery ▸ some)
  replaced begun := replaces.trans (from_.replaced (cutover ▸ begun))

theorem Descends.step (from_ : Descends previous d₀ d) (moved : d.StepMoved s target d') : Descends previous d₀ d' := by
  rw [moved.rest]
  exact from_.congr rfl rfl rfl rfl rfl rfl

/-- A change of the cutover or of the recovery. -/
theorem Descends.cutover (from_ : Descends previous d₀ d) (same : d.SameButCutover d')
    (begun : d'.cutover.hasBegun = true → d.cutover.hasBegun = true)
    (recovered : d'.recovery.isSome = true → d'.cutover.hasBegun = true) : Descends previous d₀ d' where
  id := same.id_eq.trans from_.id
  app := (congrArg (·.applicationId) same).trans from_.app
  rollbackTo := (congrArg (·.rollbackTo) same).trans from_.rollbackTo
  recovered := recovered
  replaced started := same.replaces_eq.trans (from_.replaced (begun started))

theorem Deployment.transition_rest {target : DeploymentStatus} {ms : Nat} (moved : d.transition target ms = .ok d') :
    d' = { d with status := d'.status, startedMs := d'.startedMs, finishedMs := d'.finishedMs, steps := d'.steps } := by
  unfold transition at moved
  split at moved
  · cases moved
    cases target <;> rfl
  · cases moved

theorem Deployment.confirmCutover_begun {ms : Nat} (confirmed : d.confirmCutover ms = .ok d') :
    d.cutover.isBegun = true := by
  unfold confirmCutover at confirmed
  split at confirmed
  next begun => rw [begun]; rfl
  · cases confirmed

theorem Deployment.startRecovery_failed {budgetMs ms : Nat} (started : d.startRecovery budgetMs ms = .ok d') :
    d.cutover.hasBegun = true := by
  unfold startRecovery at started
  split at started
  next failed _ => rw [failed]; rfl
  · cases started

theorem Deployment.finishRecovery_some {outcome : RecoveryOutcome} {ms : Nat}
    (finished : d.finishRecovery outcome ms = .ok d') : d.recovery.isSome = true := by
  unfold finishRecovery at finished
  split at finished
  next recovery => rw [recovery]; rfl
  · cases finished

/-- Step lemma. -/
theorem Descends.edit (from_ : Descends previous d₀ d) (edit : Edit cfg previous Time Pin d d') :
    Descends previous d₀ d' := by
  cases edit with
  | move _ moved =>
    rw [Deployment.transition_rest moved]
    have status := (Deployment.transition_ok moved).2
    exact from_.congr rfl rfl rfl rfl rfl rfl
  | start _ started => exact from_.step (Deployment.startStep_ok started).2
  | finish _ finished => exact from_.step (Deployment.finishStep_ok finished).2
  | fail _ | build | pin _ => exact from_.congr rfl rfl rfl rfl rfl rfl
  | replace same =>
    refine { from_ with replaced := fun _ => ?_ }
    rw [same]
    rfl
  | begin same _ replaces begun =>
    obtain ⟨_, kept, _, recovery⟩ := Deployment.beginCutover_ok begun
    refine ⟨kept.id_eq.trans from_.id, (congrArg (·.applicationId) kept).trans from_.app,
      (congrArg (·.rollbackTo) kept).trans from_.rollbackTo, fun _ => ?_, fun _ => ?_⟩
    · exact CutoverState.hasBegun_of_isBegun (Deployment.beginCutover_ok begun).2.2.1
    · rw [kept.replaces_eq, replaces, same]
      rfl
  | need unneeded =>
    unfold Deployment.cutoverNotRequired at unneeded
    split at unneeded
    next untouched =>
      cases unneeded
      refine from_.cutover rfl (fun begun => ?_) fun some => ?_
      · cases begun
      · have begun := from_.recovered some
        rw [untouched] at begun
        cases begun
    · cases unneeded
  | confirm _ confirmed =>
    obtain ⟨same, begun, _⟩ := Deployment.confirmCutover_ok confirmed
    have before := CutoverState.hasBegun_of_isBegun (Deployment.confirmCutover_begun confirmed)
    exact from_.cutover same (fun _ => before) fun _ => begun
  | failCutover _ failed =>
    obtain ⟨begun, same, cutover, _⟩ := Deployment.failCutover_ok failed
    exact from_.cutover same (fun _ => CutoverState.hasBegun_of_isBegun begun) fun _ => by rw [cutover]; rfl
  | recover _ started =>
    obtain ⟨_, same, cutover, _⟩ := Deployment.startRecovery_ok started
    have before := Deployment.startRecovery_failed started
    exact from_.cutover same (fun _ => before) fun _ => cutover ▸ before
  | recovered _ finished =>
    obtain ⟨same, cutover, _⟩ := Deployment.finishRecovery_ok finished
    have before := from_.recovered (Deployment.finishRecovery_some finished)
    exact from_.cutover same (fun _ => before) fun _ => cutover ▸ before

/-! ## The operations -/

/-- What a run about `d₀` may ask. -/
def Traced (previous : Option PreviousRelease) (d₀ : Deployment) : EngineOp → Prop
  | .persist d => Descends previous d₀ d
  | .record r => r.Of d₀
  | .call c _ => ∀ prev, c.previous? = some prev → previous = some prev
  | _ => True

theorem LedgerRecord.Of.congr {r : LedgerRecord} (of : r.Of d) (id : d.id = d'.id)
    (app : d.applicationId = d'.applicationId) : r.Of d' := by
  cases r with
  | intent _ _ _ _ _ => exact ⟨of.1.trans id, of.2.trans app⟩
  | receipt _ _ _ _ | cleanupAttempt _ _ _ | cleanupResult _ _ _ _ => exact of.trans id

theorem upholds_traced : Upholds cfg previous (fun (_ : Unit) _ => ()) (fun _ => Traced previous d₀) (fun _ _ => True)
    (fun _ _ => True) fun d _ _ => Descends previous d₀ d where
  quiet {_ _ _ op} isQuiet inv := by
    refine ⟨?_, fun _ => inv⟩
    cases op with
    | nowMs | persist _ | record _ | call _ _ | pinnedConfig => cases isQuiet
    | _ => trivial
  clock inv := ⟨trivial, fun _ => ⟨inv, trivial⟩⟩
  call _ which inv := ⟨which, fun _ => inv⟩
  record of _ inv := ⟨of.congr inv.id inv.app, inv, fun _ _ => inv⟩
  persist inv := ⟨inv, fun _ => inv⟩
  edit _ edit inv := inv.edit edit
  planned := trivial
  actual inv := ⟨trivial, fun _ => ⟨inv, fun _ _ => trivial⟩⟩
  keeps _ := trivial

theorem run_traced {ctx : Context} {h : History EngineSig} {q : Program EngineSig (Except EngineError Report × Run)}
    (fresh : d₀.Fresh) (follows : Program.Follows (runDeploymentConfirmed d₀ ctx cfg) h q) :
    ∀ e ∈ h, Traced (previousOf ctx cfg) d₀ e.op := by
  have up : Upholds cfg (previousOf ctx cfg) (fun (_ : Unit) _ => ()) (fun _ => Traced (previousOf ctx cfg) d₀)
      (fun _ _ => True) (fun _ _ => True) fun d _ _ => Descends (previousOf ctx cfg) d₀ d := upholds_traced
  have upheld := run_ends up (r := Run.start cfg d₀) (s := ()) fresh.descends
  intro e mem
  obtain ⟨before, rest, split⟩ := List.append_of_mem mem
  exact lawful_iff.mp (Program.Obeys.follows upheld follows).2 before e rest split

end

/-! ## An explicit recovery -/

/-- The same deployment of the same application. -/
structure Kin (d₀ d : Deployment) : Prop where
  id : d.id = d₀.id
  app : d.applicationId = d₀.applicationId

/-- What an explicit recovery of `d₀` may ask. -/
def Recovers (d₀ : Deployment) : EngineOp → Prop
  | .persist d => Kin d₀ d
  | .record r => r.Of d₀
  | _ => True

section

variable {cfg : RunConfig} {prev : PreviousRelease} {d₀ d d' : Deployment} {Time : Nat → Prop} {Pin : ReleaseConfig → Prop}

theorem Edit.kin {previous : Option PreviousRelease} (edit : Edit cfg previous Time Pin d d') : Kin d d' := by
  have butCutover : ∀ {d'}, d.SameButCutover d' → Kin d d' := fun same =>
    ⟨same.id_eq, congrArg (·.applicationId) same⟩
  cases edit with
  | move _ moved =>
    rw [Deployment.transition_rest moved]
    exact ⟨rfl, rfl⟩
  | start _ started =>
    rw [(Deployment.startStep_ok started).2.rest]
    exact ⟨rfl, rfl⟩
  | finish _ finished =>
    rw [(Deployment.finishStep_ok finished).2.rest]
    exact ⟨rfl, rfl⟩
  | fail _ | build | pin _ | replace _ => exact ⟨rfl, rfl⟩
  | begin _ _ _ begun => exact butCutover (Deployment.beginCutover_ok begun).2.1
  | need unneeded => exact butCutover (Deployment.cutoverNotRequired_ok unneeded).2.1
  | confirm _ confirmed => exact butCutover (Deployment.confirmCutover_ok confirmed).1
  | failCutover _ failed => exact butCutover (Deployment.failCutover_ok failed).2.1
  | recover _ started => exact butCutover (Deployment.startRecovery_ok started).2.1
  | recovered _ finished => exact butCutover (Deployment.finishRecovery_ok finished).1

theorem Kin.trans {a b c : Deployment} (first : Kin a b) (second : Kin b c) : Kin a c :=
  ⟨second.id.trans first.id, second.app.trans first.app⟩

theorem Deployment.startRecovery_rest {budgetMs ms : Nat} (started : d.startRecovery budgetMs ms = .ok d') :
    d' = { d with recovery := some ⟨.inProgress, ms, none, budgetMs⟩ } := by
  unfold startRecovery at started
  split at started
  · cases started
    rfl
  · cases started

/-- What an explicit recovery does to the deployment before its first write. -/
theorem Deployment.beginExplicitRecovery_rest {budgetMs ms : Nat} (begun : d.beginExplicitRecovery budgetMs ms = .ok d') :
    d' = { d with
      cutover := .failed ms
      steps := d.steps.set .recovery
        { d.step .recovery with status := .running, startedMs := some ms, finishedMs := none }
      recovery := some ⟨.inProgress, ms, none, budgetMs⟩ } := by
  unfold beginExplicitRecovery at begun
  split at begun
  next can =>
    cases started : d.cutover with
    | begun atMs =>
      have failed : d.failCutover ms = .ok { d with cutover := .failed ms } := by rw [failCutover, started]
      rw [failed] at begun
      change Deployment.startRecovery _ _ _ = _ at begun
      exact startRecovery_rest begun
    | _ =>
      simp only [canRecoverExplicitly, Bool.and_eq_true] at can
      rw [started] at can
      cases can.1.1.2
  · cases begun

theorem beginExplicitRecovery_kin {budgetMs ms : Nat} (begun : d.beginExplicitRecovery budgetMs ms = .ok d') :
    Kin d d' := by
  rw [Deployment.beginExplicitRecovery_rest begun]
  exact ⟨rfl, rfl⟩

theorem restored_kin {outcome : RecoveryOutcome} {ok : Bool} {note : String} {ms : Nat} {d₁ : Deployment}
    (finished : d.finishRecovery outcome ms = .ok d₁) (stepped : d₁.finishStep .recovery ok note ms = .ok d') :
    Kin d d' := by
  have same := (Deployment.finishRecovery_ok finished).1
  rw [(Deployment.finishStep_ok stepped).2.rest]
  exact ⟨same.id_eq, congrArg (·.applicationId) same⟩

theorem upholds_recovers : UpholdsRecovery cfg prev (fun (_ : Unit) _ => ()) (fun _ => Recovers d₀) (fun _ _ => True)
    (fun _ _ => True) fun d _ _ => Kin d₀ d where
  quiet {_ _ _ op} isQuiet inv := by
    refine ⟨?_, fun _ => inv⟩
    cases op with
    | nowMs | persist _ | record _ | call _ _ | pinnedConfig => cases isQuiet
    | _ => trivial
  clock inv := ⟨trivial, fun _ => ⟨inv, trivial⟩⟩
  call _ _ inv := ⟨trivial, fun _ => inv⟩
  record of _ inv := ⟨of.congr inv.id inv.app, inv, fun _ _ => inv⟩
  persist inv := ⟨inv, fun _ => inv⟩
  edit _ edit inv := inv.trans edit.kin
  planned := trivial
  actual inv := ⟨trivial, fun _ => ⟨inv, fun _ _ => trivial⟩⟩
  keeps _ := trivial
  begins _ _ begun inv :=
    ⟨inv.trans (beginExplicitRecovery_kin begun), fun _ => inv.trans (beginExplicitRecovery_kin begun)⟩
  ends _ finished stepped inv :=
    ⟨inv.trans (restored_kin finished stepped), fun _ => inv.trans (restored_kin finished stepped)⟩

theorem recover_traced {previous : PreviousRelease} {h : History EngineSig}
    {q : Program EngineSig (Except EngineError Report × Run)}
    (follows : Program.Follows (recoverCutover d₀ previous cfg) h q) : ∀ e ∈ h, Recovers d₀ e.op := by
  have up : UpholdsRecovery cfg { previous with config := cfg.previous } (fun (_ : Unit) _ => ())
      (fun _ => Recovers d₀) (fun _ _ => True) (fun _ _ => True) fun d _ _ => Kin d₀ d := upholds_recovers
  have upheld := recover_ends up (r := Run.start cfg d₀) (s := ()) ⟨rfl, rfl⟩
  intro e mem
  obtain ⟨before, rest, split⟩ := List.append_of_mem mem
  exact lawful_iff.mp (Program.Obeys.follows upheld follows).2 before e rest split

/-- A recovery that may not be made asks nothing. -/
theorem recover_refused {previous : PreviousRelease} {h : History EngineSig}
    {q : Program EngineSig (Except EngineError Report × Run)} (refused : d₀.canRecoverExplicitly = false)
    (follows : Program.Follows (recoverCutover d₀ previous cfg) h q) : h = [] := by
  have silent : Meets (fun (_ : Unit) _ => ()) (fun _ _ => False)
      (Run.recover cfg { previous with config := cfg.previous }) (fun _ _ _ => True) (fun _ _ _ => True)
      (Run.start cfg d₀) () := by
    refine meets_bind.mpr (meets_get.mpr ?_)
    rw [if_pos (by rw [show (Run.start cfg d₀).d = d₀ from rfl, refused]; rfl)]
    exact trivial
  cases h with
  | nil => rfl
  | cons e h => exact (Program.Obeys.follows silent follows).2.1.elim

end

/-! ## The ledger -/

section

variable {l l' : Ledger} {r : LedgerRecord} {h : History EngineSig} {d : Deployment} {p : Entry → Bool}

/-- What does not see the entry that the record is about sees no change. -/
theorem Ledger.Applied.unseen (applied : l.Applied r l')
    (blind : ∀ e : Entry, e.deployment = r.deployment → e.key = r.key → p e = false) :
    l'.entries.filter p = l.entries.filter p := by
  have modified : ∀ {f : Entry → Entry}, (∀ e, (f e).deployment = e.deployment ∧ (f e).key = e.key) →
      (l.modifyEntry r.deployment r.key f).entries.filter p = l.entries.filter p := by
    intro f keeps
    refine Keyed.filter_modify fun e same => ?_
    obtain ⟨own, key⟩ : e.deployment = r.deployment ∧ e.key = r.key := Prod.mk.inj same
    exact ⟨blind e own key, blind (f e) ((keeps e).1.trans own) ((keeps e).2.trans key)⟩
  cases applied with
  | @intent k app dep disposition atMs _ _ =>
    have unseen := blind (intended k app dep disposition atMs) rfl rfl
    show List.filter p (l.entries ++ [intended k app dep disposition atMs]) = _
    rw [List.filter_append, List.filter_cons, unseen]
    exact List.append_nil _
  | receipt _ _ _ | attempt _ _ | result _ _ _ => exact modified fun _ => ⟨rfl, rfl⟩
  | receiptAgain _ _ => rfl

theorem LeftBy.unseen (left : LeftBy l h l')
    (blind : ∀ e ∈ h, ∀ r, e.op = .record r → ∀ x : Entry, x.deployment = r.deployment → x.key = r.key → p x = false) :
    l'.entries.filter p = l.entries.filter p := by
  refine left.invariant (I := fun x => x.entries.filter p = l.entries.filter p) rfl ?_
  rintro a b r ⟨e, mem, record⟩ applied same
  exact (applied.unseen (blind e mem r record)).trans same

theorem LedgerRecord.Of.deployment_eq (of : r.Of d) : r.deployment = d.id := by
  cases r with
  | intent _ _ _ _ _ => exact of.1
  | receipt _ _ _ _ | cleanupAttempt _ _ _ | cleanupResult _ _ _ _ => exact of

end

end Harpoon.Deploy
