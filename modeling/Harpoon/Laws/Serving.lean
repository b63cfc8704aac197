import Harpoon.Deploy.Serving
import Harpoon.Keyed.Greatest
import Harpoon.Laws.Startup
import Harpoon.Laws.Traced

/-!
# How long a release is named

What is named as serving is the candidate with the latest recorded time. The runs of other deployments, starts
and restorations change no candidate but their own, so a deployment that succeeded is named for as long as
nothing comes after it; and it is named at all only if the times recorded before are earlier than its own.
-/

namespace Harpoon.Deploy

open Interact Process

/-! ## The order of candidates -/

section

variable {a b c : Serving} {l : Ledger} {deployments : List Deployment} {app : ApplicationId} {d : Deployment}

theorem comesAfter_iff : a.comesAfter b = true ↔
    b.sinceMs < a.sinceMs ∨ b.sinceMs = a.sinceMs ∧ b.containerOwner.asStr < a.containerOwner.asStr := by
  simp [Serving.comesAfter]

theorem comesAfter_trans (a b c : Serving) (first : a.comesAfter b = true) (second : b.comesAfter c = true) :
    a.comesAfter c = true := by
  rw [comesAfter_iff] at first second ⊢
  rcases first with time | ⟨time, name⟩
  · rcases second with time' | ⟨time', _⟩
    · exact .inl (Nat.lt_trans time' time)
    · exact .inl (time' ▸ time)
  · rcases second with time' | ⟨time', name'⟩
    · exact .inl (time ▸ time')
    · exact .inr ⟨time'.trans time, String.lt_trans name' name⟩

theorem comesAfter_irrefl (a : Serving) : a.comesAfter a = false := by
  refine Bool.eq_false_iff.mpr fun above => ?_
  rcases comesAfter_iff.mp above with time | ⟨_, name⟩
  · exact Nat.lt_irrefl _ time
  · exact String.lt_irrefl _ name

/-- Containers of different deployments are never equal in the order. -/
theorem comesAfter_total (other : a.containerOwner ≠ b.containerOwner) :
    a.comesAfter b = true ∨ b.comesAfter a = true := by
  rw [comesAfter_iff, comesAfter_iff]
  rcases Nat.lt_trichotomy b.sinceMs a.sinceMs with time | time | time
  · exact .inl (.inl time)
  · by_cases first : b.containerOwner.asStr < a.containerOwner.asStr
    · exact .inl (.inr ⟨time, first⟩)
    · by_cases second : a.containerOwner.asStr < b.containerOwner.asStr
      · exact .inr (.inr ⟨time.symm, second⟩)
      · have same := String.le_antisymm (String.not_lt.mp first) (String.not_lt.mp second)
        exact absurd (Id.asStr_inj same) other
  · exact .inr (.inl time)

theorem comesAfter_between (a b c : Serving) (above : a.comesAfter c = true) :
    a.comesAfter b = true ∨ b.comesAfter c = true := by
  rw [comesAfter_iff] at above ⊢
  rw [comesAfter_iff]
  rcases Nat.lt_trichotomy b.sinceMs a.sinceMs with time | time | time
  · exact .inl (.inl time)
  · rcases above with first | ⟨same, name⟩
    · exact .inr (.inl (time ▸ first))
    · by_cases first : b.containerOwner.asStr < a.containerOwner.asStr
      · exact .inl (.inr ⟨time, first⟩)
      · refine .inr (.inr ⟨same.trans time.symm, Decidable.byContradiction fun second => ?_⟩)
        have le := String.le_trans (String.not_lt.mp first) (String.not_lt.mp second)
        exact String.not_lt.mpr le name
  · rcases above with first | ⟨same, _⟩
    · exact .inr (.inl (Nat.lt_trans first time))
    · exact .inr (.inl (same ▸ time))

/-! ## What a deployment left serving -/

/-- The deployment succeeded, or restored the release before it, at the time `t`, and the container of that is
still recorded. -/
inductive Deployment.ServedSince (d : Deployment) (l : Ledger) : Nat → Prop where
  | succeeded {name : String} (status : d.status = .succeeded) (release : d.release.isSome = true)
      (live : l.liveContainer d.applicationId d.id none = some name) :
      ServedSince d l (d.finishedMs.getD d.createdMs)
  | restored {r : Recovery} {name : String} (recovery : d.recovery = some r) (back : r.outcome.serviceRestored = true)
      (replaces : d.replaces.isSome = true)
      (live : l.liveContainer d.applicationId d.id (some (restoredContainerName d.id)) = some name) :
      ServedSince d l (r.finishedMs.getD r.startedMs)

theorem succeededCandidate_some (found : succeededCandidate l app d = some c) :
    c.containerOwner = d.id ∧ c.sinceMs = d.finishedMs.getD d.createdMs ∧ d.status = .succeeded ∧
      d.release.isSome = true ∧ l.liveContainer app d.id none = some c.containerName := by
  unfold succeededCandidate at found
  split at found
  next status =>
    obtain ⟨rel, release, found⟩ := Option.bind_eq_some_iff.mp found
    obtain ⟨name, live, found⟩ := Option.bind_eq_some_iff.mp found
    cases found
    exact ⟨rfl, rfl, status, by rw [release]; rfl, live⟩
  · cases found

theorem restoredCandidate_some (found : restoredCandidate l deployments app d = some c) :
    c.containerOwner = d.id ∧ ∃ r, d.recovery = some r ∧ r.outcome.serviceRestored = true ∧
      c.sinceMs = r.finishedMs.getD r.startedMs ∧ d.replaces = some c.release ∧
      c.config = pinnedBy deployments c.release ∧
      l.liveContainer app d.id (some (restoredContainerName d.id)) = some c.containerName := by
  obtain ⟨r, recovery, found⟩ := Option.bind_eq_some_iff.mp found
  obtain ⟨rel, replaces, found⟩ := Option.bind_eq_some_iff.mp found
  obtain ⟨name, live, found⟩ := Option.bind_eq_some_iff.mp found
  obtain ⟨recovery, back⟩ := Option.filter_eq_some_iff.mp recovery
  cases found
  exact ⟨rfl, r, recovery, back, rfl, replaces, rfl, live⟩

/-- The candidates are the containers that deployments left serving, each since its time. -/
theorem mem_candidatesOf {t : Nat} : (∃ c ∈ candidatesOf l deployments d.applicationId d,
    c.containerOwner = d.id ∧ c.sinceMs = t) ↔ d.ServedSince l t := by
  constructor
  · rintro ⟨c, mem, _, rfl⟩
    rcases List.mem_append.mp mem with mem | mem
    · obtain ⟨_, since, status, release, live⟩ := succeededCandidate_some (Option.mem_toList.mp mem)
      exact since ▸ .succeeded status release live
    · obtain ⟨_, r, recovery, back, since, replaces, _, live⟩ := restoredCandidate_some (Option.mem_toList.mp mem)
      exact since ▸ .restored recovery back (by rw [replaces]; rfl) live
  · intro served
    cases served with
    | succeeded status release live =>
      obtain ⟨rel, release⟩ := Option.isSome_iff_exists.mp release
      cases found : succeededCandidate l d.applicationId d with
      | none =>
        rw [succeededCandidate, if_pos status, release, live] at found
        cases found
      | some c =>
        obtain ⟨owner, since, _⟩ := succeededCandidate_some found
        exact ⟨c, List.mem_append_left _ (Option.mem_toList.mpr found), owner, since⟩
    | restored recovery back replaces live =>
      obtain ⟨rel, replaces⟩ := Option.isSome_iff_exists.mp replaces
      cases found : restoredCandidate l deployments d.applicationId d with
      | none =>
        rw [restoredCandidate, Option.filter_eq_some_iff.mpr ⟨recovery, back⟩, replaces, live] at found
        cases found
      | some c =>
        obtain ⟨owner, r, same, _, since, _⟩ := restoredCandidate_some found
        rw [recovery] at same
        cases same
        exact ⟨c, List.mem_append_right _ (Option.mem_toList.mpr found), owner, since⟩

theorem candidatesOf_owner (mem : c ∈ candidatesOf l deployments app d) : c.containerOwner = d.id := by
  rcases List.mem_append.mp mem with mem | mem
  · exact (succeededCandidate_some (Option.mem_toList.mp mem)).1
  · exact (restoredCandidate_some (Option.mem_toList.mp mem)).1

theorem mem_candidates : c ∈ candidates l deployments app ↔
    ∃ d ∈ deployments, d.applicationId = app ∧ c ∈ candidatesOf l deployments app d := by
  simp [candidates, List.mem_flatMap, and_assoc]

theorem servingRelease_greatest :
    servingRelease l deployments app = Keyed.greatest Serving.comesAfter (candidates l deployments app) := rfl

end

/-! ## The records -/

/-- What the journal holds of the deployments and of their resources: one snapshot of each deployment. -/
structure Records where
  ledger : Ledger
  deployments : List Deployment
  unique : Keyed.Unique Deployment.id deployments

/-- The one time comes before the other; of equal times, that of the smaller identifier. -/
def Precedes (t : Nat) (x : DeploymentId) (t' : Nat) (y : DeploymentId) : Prop := t < t' ∨ t = t' ∧ x.asStr < y.asStr

namespace Records

/-- The deployment `id` left the application serving, at the time `t`. -/
def Left (w : Records) (app : ApplicationId) (id : DeploymentId) (t : Nat) : Prop :=
  ∃ d ∈ w.deployments, d.applicationId = app ∧ d.id = id ∧ d.ServedSince w.ledger t

/-- What the deployment left serving comes after all that other deployments of the application left serving. -/
def Latest (w : Records) (app : ApplicationId) (id : DeploymentId) : Prop :=
  ∃ t, w.Left app id t ∧ ∀ id' t', id' ≠ id → w.Left app id' t' → Precedes t' id' t id

/-- The deployment is named as the one that serves the application. -/
def Names (w : Records) (app : ApplicationId) (id : DeploymentId) : Prop :=
  ∃ s, servingRelease w.ledger w.deployments app = some s ∧ s.containerOwner = id

variable {w w' w₁ : Records} {d x : Deployment} {app : ApplicationId} {id : DeploymentId} {t : Nat}

theorem left_iff : w.Left app id t ↔
    ∃ c ∈ candidates w.ledger w.deployments app, c.containerOwner = id ∧ c.sinceMs = t := by
  constructor
  · rintro ⟨d, mem, rfl, rfl, served⟩
    obtain ⟨c, inside, own, since⟩ : ∃ c ∈ candidatesOf w.ledger w.deployments d.applicationId d,
        c.containerOwner = d.id ∧ c.sinceMs = t := mem_candidatesOf.mpr served
    exact ⟨c, mem_candidates.mpr ⟨d, mem, rfl, inside⟩, own, since⟩
  · rintro ⟨c, inside, rfl, rfl⟩
    obtain ⟨d, mem, rfl, inside⟩ := mem_candidates.mp inside
    have own := candidatesOf_owner inside
    exact ⟨d, mem, rfl, own.symm, mem_candidatesOf.mp ⟨c, inside, own, rfl⟩⟩

theorem names_iff : w.Names app id ↔ w.Latest app id := by
  have decided : ∀ a b : Serving, a.containerOwner = id → ¬ b.containerOwner = id →
      a.comesAfter b = true ∨ b.comesAfter a = true := fun a b own other => comesAfter_total fun same => other (same ▸ own)
  rw [Names, servingRelease_greatest, Keyed.greatest_of_kind comesAfter_trans comesAfter_between comesAfter_irrefl decided]
  constructor
  · rintro ⟨c, inside, own, first⟩
    refine ⟨c.sinceMs, left_iff.mpr ⟨c, inside, own, rfl⟩, fun id' t' other left => ?_⟩
    obtain ⟨c', inside', rfl, rfl⟩ := left_iff.mp left
    have above := comesAfter_iff.mp (first c' inside' other)
    rwa [own] at above
  · rintro ⟨t, left, first⟩
    obtain ⟨c, inside, rfl, rfl⟩ := left_iff.mp left
    exact ⟨c, inside, rfl, fun c' inside' other =>
      comesAfter_iff.mpr (first c'.containerOwner c'.sinceMs other (left_iff.mpr ⟨c', inside', rfl, rfl⟩))⟩

end Records

/-! ## What happens to the records -/

/-- The deployment succeeded, or restored the release before it. -/
def Deployment.EndedServing (d : Deployment) : Prop := d.status = .succeeded ∨ d.serviceRestored = true

/-- What happens to the records, read at any time by any clock: a new deployment runs, an interrupted one is
restored, the process starts, the ledger is reconciled with the runtime without a change to the application's
containers. A run or a restoration may be cut short anywhere. -/
inductive Moves (app : ApplicationId) (w w' : Records) : Prop where
  | run {d : Deployment} {ctx : Context} {cfg : RunConfig} {h : History EngineSig}
      {q : Program EngineSig (Except EngineError Report × Run)} (fresh : d.Fresh)
      (new : ∀ x ∈ w.deployments, x.id ≠ d.id) (prior : cfg.priorLedger = w.ledger)
      (follows : Program.Follows (runDeploymentConfirmed d ctx cfg) h q) (left : LeftBy w.ledger h w'.ledger)
      (deployments : w'.deployments = w.deployments ++ (storedSnapshots h).getLast?.toList)
  | recover {earlier later : List Deployment} {d : Deployment} {previous : PreviousRelease} {cfg : RunConfig}
      {h : History EngineSig} {q : Program EngineSig (Except EngineError Report × Run)}
      (known : w.deployments = earlier ++ d :: later) (prior : cfg.priorLedger = w.ledger)
      (follows : Program.Follows (recoverCutover d previous cfg) h q) (left : LeftBy w.ledger h w'.ledger)
      (deployments : w'.deployments = earlier ++ (storedSnapshots h).getLast?.getD d :: later)
  | start (nowMs : Nat) (ledger : w'.ledger = w.ledger)
      (deployments : w'.deployments = (recoverOnStart w.deployments nowMs).1)
  | reconcile {ended : List (DeploymentId × EndState)} {h : History EngineSig}
      {q : Program EngineSig (Except EngineError (List Observed) × Ledger)}
      (follows : Program.Follows ((Deploy.reconcile ended).toProgram w.ledger) h q) (left : LeftBy w.ledger h w'.ledger)
      (spares : ∀ e ∈ h, ∀ r, e.op = .record r → r.key.kind = .container →
        ∀ x ∈ w.deployments, x.applicationId = app → r.deployment ≠ x.id)
      (deployments : w'.deployments = w.deployments)

/-- Only deployments of the application that had ended serving in `w₁` have done so in `w`. -/
def Undisturbed (w₁ : Records) (app : ApplicationId) (w : Records) : Prop :=
  ∀ x ∈ w.deployments, x.applicationId = app → x.EndedServing →
    ∃ y ∈ w₁.deployments, y.applicationId = app ∧ y.id = x.id ∧ y.EndedServing

/-- What the records can become after `w₁` while no other deployment of the application succeeds or restores the
release before it. -/
inductive Quiet (w₁ : Records) (app : ApplicationId) : Records → Prop where
  | refl : Quiet w₁ app w₁
  | move {w w' : Records} (quiet : Quiet w₁ app w) (moves : Moves app w w') (undisturbed : Undisturbed w₁ app w') :
      Quiet w₁ app w'

/-- What such a time keeps. -/
structure Carries (w₁ : Records) (app : ApplicationId) (w : Records) : Prop where
  ended : ∀ y ∈ w₁.deployments, y.applicationId = app → y.EndedServing →
    ∃ x ∈ w.deployments, x.applicationId = app ∧ x.id = y.id ∧ x.EndedServing
  left : ∀ id t, w.Left app id t ↔ w₁.Left app id t

section

variable {l l' : Ledger} {d d' : Deployment} {h : History EngineSig} {t nowMs : Nat}

theorem mem_storedSnapshots {x : Deployment} (mem : x ∈ storedSnapshots h) : ∃ e ∈ h, e.op = .persist x := by
  obtain ⟨⟨op, answer⟩, inside, found⟩ := List.mem_filterMap.mp mem
  refine ⟨_, inside, ?_⟩
  cases op with
  | persist d =>
    simp only [storedSnapshot?] at found
    split at found <;> cases found
    rfl
  | _ => cases found

theorem Deployment.ServedSince.ended (served : d.ServedSince l t) : d.EndedServing := by
  cases served with
  | succeeded status _ _ => exact .inl status
  | restored recovery back _ _ =>
    refine .inr ?_
    rw [serviceRestored, recovery]
    exact back

theorem liveContainer_congr {app : ApplicationId} {owner : DeploymentId} {only : Option String}
    (same : (l'.entries.filter fun e => e.deployment = owner && e.isLiveContainer app only) =
      l.entries.filter fun e => e.deployment = owner && e.isLiveContainer app only) :
    l'.liveContainer app owner only = l.liveContainer app owner only := by
  rw [Ledger.liveContainer, Ledger.liveContainer, ← List.head?_filter, ← List.head?_filter, same]

/-- The deployment left the same serving in the one record as in the other. -/
structure ServesAlike (l : Ledger) (d : Deployment) (l' : Ledger) (d' : Deployment) : Prop where
  id : d'.id = d.id
  app : d'.applicationId = d.applicationId
  replaces : d'.replaces = d.replaces
  succeeded : d.status = .succeeded ∨ d'.status = .succeeded → d' = d
  restored : ∀ r, r.outcome.serviceRestored = true → (d'.recovery = some r ↔ d.recovery = some r)
  live : ∀ only, l'.liveContainer d.applicationId d.id only = l.liveContainer d.applicationId d.id only

theorem ServesAlike.symm (alike : ServesAlike l d l' d') : ServesAlike l' d' l d where
  id := alike.id.symm
  app := alike.app.symm
  replaces := alike.replaces.symm
  succeeded either := (alike.succeeded either.symm).symm
  restored r back := (alike.restored r back).symm
  live only := by rw [alike.id, alike.app, alike.live]

theorem ServesAlike.ended (alike : ServesAlike l d l' d') (ended : d.EndedServing) : d'.EndedServing := by
  rcases ended with status | back
  · exact .inl (alike.succeeded (.inl status) ▸ status)
  · obtain ⟨r, recovery, back⟩ := (Option.any_eq_true _ _).mp back
    refine .inr ?_
    rw [Deployment.serviceRestored, (alike.restored r back).mpr recovery]
    exact back

theorem ServesAlike.since (alike : ServesAlike l d l' d') (served : d.ServedSince l t) : d'.ServedSince l' t := by
  cases served with
  | succeeded status release live =>
    rw [alike.succeeded (.inl status)]
    exact .succeeded status release ((alike.live none).trans live)
  | @restored r name recovery back replaces live =>
    have live' : l'.liveContainer d'.applicationId d'.id (some (restoredContainerName d'.id)) = some name := by
      rw [alike.app, alike.id, alike.live, live]
    exact .restored ((alike.restored r back).mpr recovery) back (alike.replaces ▸ replaces) live'

/-- What may be restored explicitly left nothing serving. -/
theorem Deployment.not_endedServing (can : d.canRecoverExplicitly = true) : ¬ d.EndedServing := by
  simp only [canRecoverExplicitly, Bool.and_eq_true, decide_eq_true_iff] at can
  obtain ⟨⟨⟨status, _⟩, none⟩, _⟩ := can
  rintro (succeeded | back)
  · rw [status] at succeeded
    cases succeeded
  · rw [serviceRestored, Option.isNone_iff_eq_none.mp none] at back
    cases back

/-- Startup changes nothing that a deployment left serving. -/
theorem recoverDeployment_alike : ServesAlike l d l (recoverDeployment d nowMs).1 := by
  have closed : ∀ {x : Deployment} {r : Recovery}, r.outcome.serviceRestored = true →
      ((closeUnfinishedRecovery x nowMs).recovery = some r ↔ x.recovery = some r) := by
    intro x r back
    show x.recovery.map _ = some r ↔ _
    cases x.recovery with
    | none => exact Iff.rfl
    | some own =>
      rw [Option.map_some, Option.some_inj, Option.some_inj]
      split
      next unfinished =>
        constructor
        · rintro rfl
          cases back
        · rintro rfl
          rw [unfinished] at back
          cases back
      next => exact Iff.rfl
  unfold recoverDeployment
  split
  next terminal =>
    dsimp only
    split
    next interrupted =>
      have unserved : d.status ≠ .succeeded := fun status => by rw [interrupted] at status; cases status
      exact ⟨rfl, rfl, rfl, fun either => absurd (either.elim id id) unserved, fun _ => closed, fun _ => rfl⟩
    next => exact ⟨rfl, rfl, rfl, fun _ => rfl, fun _ _ => Iff.rfl, fun _ => rfl⟩
  next open_ =>
    have unserved : d.status ≠ .succeeded := fun status => open_ (by rw [status]; rfl)
    dsimp only
    split
    next moved =>
      have rest := Deployment.transition_rest moved
      have status := (Deployment.transition_ok moved).2.status
      have marked : ∀ {x : Deployment}, x.status = .interrupted → x.status ≠ .succeeded := fun same also => by
        rw [same] at also; cases also
      rw [rest]
      exact ⟨rfl, rfl, rfl, fun either => either.elim (absurd · unserved) (absurd · (marked status)),
        fun _ => closed, fun _ => rfl⟩
    next => exact ⟨rfl, rfl, rfl, fun either => absurd (either.elim id id) unserved, fun _ => closed, fun _ => rfl⟩

theorem LeftBy.alike (left : LeftBy l h l')
    (spares : ∀ e ∈ h, ∀ r, e.op = .record r → r.key.kind = .container → r.deployment ≠ d.id) :
    ServesAlike l d l' d := by
  refine ⟨rfl, rfl, rfl, fun _ => rfl, fun _ _ => Iff.rfl, fun only => liveContainer_congr (left.unseen ?_)⟩
  intro e mem r record x own key
  rw [Bool.and_eq_false_iff, decide_eq_false_iff_not]
  by_cases container : r.key.kind = .container
  · exact .inl fun same => spares e mem r record container (own.symm.trans same)
  · refine .inr ?_
    simp [Entry.isLiveContainer, key, container]

end

namespace Carries

variable {w w' w₁ : Records} {app : ApplicationId}

theorem refl : Carries w₁ app w₁ :=
  ⟨fun y mem own ended => ⟨y, mem, own, rfl, ended⟩, fun _ _ => Iff.rfl⟩

theorem trans_alike (carries : Carries w₁ app w)
    (kept : ∀ x ∈ w.deployments, x.applicationId = app → x.EndedServing →
      ∃ x' ∈ w'.deployments, ServesAlike w.ledger x w'.ledger x')
    (only : ∀ x' ∈ w'.deployments, x'.applicationId = app → x'.EndedServing →
      ∃ x ∈ w.deployments, ServesAlike w.ledger x w'.ledger x') : Carries w₁ app w' where
  ended y mem own ended := by
    obtain ⟨x, known, mine, same, served⟩ := carries.ended y mem own ended
    obtain ⟨x', known', alike⟩ := kept x known mine served
    exact ⟨x', known', alike.app.trans mine, alike.id.trans same, alike.ended served⟩
  left id t := by
    refine Iff.trans ⟨?_, ?_⟩ (carries.left id t)
    · rintro ⟨x', known', mine, rfl, since⟩
      obtain ⟨x, known, alike⟩ := only x' known' mine since.ended
      exact ⟨x, known, alike.app.symm.trans mine, alike.id.symm, alike.symm.since since⟩
    · rintro ⟨x, known, mine, rfl, since⟩
      obtain ⟨x', known', alike⟩ := kept x known mine since.ended
      exact ⟨x', known', alike.app.trans mine, alike.id, alike.since since⟩

/-- A deployment that had not ended serving has not done so since. -/
theorem not_ended (carries : Carries w₁ app w) (undisturbed : Undisturbed w₁ app w') {d d' : Deployment}
    (known : ∀ x ∈ w.deployments, x.id = d.id → ¬ x.EndedServing) (mem : d' ∈ w'.deployments)
    (mine : d'.applicationId = app) (same : d'.id = d.id) : ¬ d'.EndedServing := by
  intro ended
  obtain ⟨y, inside, own, named, was⟩ := undisturbed d' mem mine ended
  obtain ⟨x, inside, _, named', also⟩ := carries.ended y inside own was
  exact known x inside (named'.trans (named.trans same)) also

/-- Step lemma. -/
theorem moves (carries : Carries w₁ app w) (moves : Moves app w w') (undisturbed : Undisturbed w₁ app w') :
    Carries w₁ app w' := by
  cases moves with
  | @run d ctx cfg h q fresh new prior follows left deployments =>
    have traced := run_traced fresh follows
    have alike : ∀ x ∈ w.deployments, ServesAlike w.ledger x w'.ledger x := fun x mem =>
      left.alike fun e inside r record _ same => by
        have about := traced e inside
        rw [record] at about
        exact new x mem (same.symm.trans about.deployment_eq)
    refine carries.trans_alike (fun x mem _ _ => ⟨x, ?_, alike x mem⟩) fun x' mem mine ended => ?_
    · rw [deployments]
      exact List.mem_append_left _ mem
    · have inside := mem
      rw [deployments] at inside
      rcases List.mem_append.mp inside with inside | inside
      · exact ⟨x', inside, alike x' inside⟩
      · obtain ⟨e, asked, persist⟩ := mem_storedSnapshots (List.mem_of_getLast? (Option.mem_toList.mp inside))
        have about := traced e asked
        rw [persist] at about
        exact absurd ended (carries.not_ended undisturbed (fun x known same => absurd same (new x known)) mem mine about.id)
  | @recover earlier later d previous cfg h q known prior follows left deployments =>
    cases can : d.canRecoverExplicitly with
    | false =>
      obtain rfl := recover_refused can follows
      have same : w'.deployments = w.deployments := deployments.trans known.symm
      have alike : ∀ x, ServesAlike w.ledger x w'.ledger x := fun x => left.alike fun e mem => by cases mem
      exact carries.trans_alike (fun x mem _ _ => ⟨x, same ▸ mem, alike x⟩) fun x mem _ _ => ⟨x, same ▸ mem, alike x⟩
    | true =>
      have traced := recover_traced follows
      have unended := Deployment.not_endedServing can
      have its : d ∈ w.deployments := by simp [known]
      have other : ∀ x ∈ w.deployments, x.EndedServing → x.id ≠ d.id := fun x mem ended same =>
        unended (w.unique.eq_of_key mem its same ▸ ended)
      have alike : ∀ x ∈ w.deployments, x.EndedServing → ServesAlike w.ledger x w'.ledger x := fun x mem ended =>
        left.alike fun e inside r record _ same => by
          have about := traced e inside
          rw [record] at about
          exact other x mem ended (same.symm.trans about.deployment_eq)
      refine carries.trans_alike (fun x mem _ ended => ⟨x, ?_, alike x mem ended⟩) fun x' mem mine ended => ?_
      · have apart := other x mem ended
        rw [known] at mem
        rw [deployments]
        rcases List.mem_append.mp mem with mem | mem
        · exact List.mem_append_left _ mem
        · rcases List.mem_cons.mp mem with rfl | mem
          · exact absurd rfl apart
          · exact List.mem_append_right _ (List.mem_cons_of_mem _ mem)
      · have inside := mem
        rw [deployments] at inside
        rcases List.mem_append.mp inside with inside | inside
        · have was : x' ∈ w.deployments := known ▸ List.mem_append_left _ inside
          exact ⟨x', was, alike x' was ended⟩
        · rcases List.mem_cons.mp inside with rfl | inside
          · have named : ((storedSnapshots h).getLast?.getD d).id = d.id := by
              cases last : (storedSnapshots h).getLast? with
              | none => rfl
              | some x =>
                obtain ⟨e, asked, persist⟩ := mem_storedSnapshots (List.mem_of_getLast? last)
                have about := traced e asked
                rw [persist] at about
                exact about.id
            exact absurd ended (carries.not_ended undisturbed (fun x known same also => other x known also same) mem mine named)
          · have was : x' ∈ w.deployments := known ▸ List.mem_append_right _ (List.mem_cons_of_mem _ inside)
            exact ⟨x', was, alike x' was ended⟩
  | start nowMs ledger deployments =>
    rw [recoverOnStart_fst] at deployments
    refine carries.trans_alike (fun x mem _ _ => ⟨(recoverDeployment x nowMs).1, ?_, ?_⟩) fun x' mem _ _ => ?_
    · rw [deployments]
      exact List.mem_map_of_mem mem
    · rw [ledger]
      exact recoverDeployment_alike
    · rw [deployments] at mem
      obtain ⟨x, known, rfl⟩ := List.mem_map.mp mem
      exact ⟨x, known, ledger ▸ recoverDeployment_alike⟩
  | @reconcile ended h q follows left spares deployments =>
    have alike : ∀ x ∈ w.deployments, x.applicationId = app → ServesAlike w.ledger x w'.ledger x :=
      fun x mem mine => left.alike fun e inside r record container => spares e inside r record container x mem mine
    rw [← deployments] at alike
    refine carries.trans_alike (fun x mem mine _ => ⟨x, ?_, ?_⟩) fun x mem mine _ => ⟨x, ?_, alike x mem mine⟩
    · rw [deployments]
      exact mem
    · exact alike x (deployments ▸ mem) mine
    · exact deployments ▸ mem

end Carries

/-- Run lemma. -/
theorem Quiet.carries {w w₁ : Records} {app : ApplicationId} (quiet : Quiet w₁ app w) : Carries w₁ app w := by
  induction quiet with
  | refl => exact .refl
  | move _ moves undisturbed ih => exact ih.moves moves undisturbed

/-- While nothing else of the application succeeds or restores, a deployment is named as serving exactly if what
it left serving was the latest by the recorded times. -/
theorem named_while_quiet {w w₁ : Records} {app : ApplicationId} {id : DeploymentId} (quiet : Quiet w₁ app w) :
    w.Names app id ↔ w₁.Latest app id := by
  have carries := quiet.carries
  rw [Records.names_iff, Records.Latest, Records.Latest]
  simp only [carries.left]

section

variable (w : Records) (nowMs : Nat)

/-- The records after a start of the process. -/
def Records.started : Records where
  ledger := w.ledger
  deployments := (recoverOnStart w.deployments nowMs).1
  unique := by
    have same : ∀ d ∈ w.deployments, (Deployment.id ∘ fun d => (recoverDeployment d nowMs).1) d = d.id :=
      fun d _ => survives_recoverDeployment.id
    rw [recoverOnStart_fst, Keyed.Unique, List.map_map, List.map_congr_left same]
    exact w.unique

theorem quiet_started (app : ApplicationId) : Quiet w app (w.started nowMs) := by
  refine .move .refl (.start nowMs rfl rfl) fun x mem own ended => ?_
  have restarted : x ∈ w.deployments.map fun d => (recoverDeployment d nowMs).1 := recoverOnStart_fst ▸ mem
  obtain ⟨y, known, rfl⟩ := List.mem_map.mp restarted
  have alike : ServesAlike w.ledger y w.ledger (recoverDeployment y nowMs).1 := recoverDeployment_alike
  exact ⟨y, known, alike.app.symm.trans own, alike.id.symm, alike.symm.ended ended⟩

end

/-- The records that are reached from none. -/
inductive Reached (app : ApplicationId) : Records → Prop where
  | new : Reached app ⟨.new, [], List.nodup_nil⟩
  | move {w w' : Records} (reached : Reached app w) (moves : Moves app w w') : Reached app w'

/-! ## Runs one after another -/

namespace Successive

def app : ApplicationId := ⟨1#128⟩

def dep (n : Nat) : DeploymentId := ⟨BitVec.ofNat 128 n⟩

def pinned (n : Nat) : ReleaseConfig :=
  { Replaced.pinned with imageTag := s!"harpoon/app:{n}", hostPort := UInt16.ofNat (38000 + n) }

def queued (n ms : Nat) (target : Option Nat) : Deployment :=
  { Deployment.new (dep n) app .manual ms with
    status := .queued
    rollbackTo := target.map fun m => .fromDeployment (dep m) }

def create (name : String) : Script :=
  .ask (.intend ⟨.container, name⟩ .retain) fun
    | .ok intent => .ask (.receipt intent ("id-" ++ name)) fun _ => .done ()
    | .error _ => .done ()

/-- The run of the deployment `n` plans the port 38000 + n, creates its container, and reads a clock that stands
still at `ms`. Its final check may fail, and then the release before it is restored. -/
def answers (n ms : Nat) (fails : Bool) : (op : EngineOp) → op.Answer
  | .call .startNew _ => create s!"hp-{n}"
  | .call (.restorePrevious _ _) _ => create (restoredContainerName (dep n))
  | .call _ _ => .done ()
  | .result .planRelease => .ok (some (pinned n))
  | .result .finalCheck => if fails then .error (.new "unhealthy") else .ok Replaced.healthy
  | .result c => .ok (Replaced.value c)
  | .nowMs => ms
  | .pinnedConfig => some (pinned n)
  | op => Replaced.answers .acknowledged (fun _ => false) op

section

-- The release before it is that of the deployment `previous.1`, and serves as `previous.2` planned.
variable (l : Ledger) (n ms : Nat) (target : Option Nat) (previous : Option (Nat × Nat)) (fails : Bool)

def ctx : Context := ⟨previous.map fun m => .fromDeployment (dep m.1)⟩

def cfg : RunConfig := { RunConfig.default with priorLedger := l, previous := previous.map fun m => pinned m.2 }

def history : History EngineSig :=
  ((runDeploymentConfirmed (queued n ms target) (ctx previous) (cfg l previous)).play (answers n ms fails)).1

def ledgerAfter : Ledger := l.absorb (acknowledgedRecords (history l n ms target previous fails))

def deploymentsAfter (deployments : List Deployment) : List Deployment :=
  deployments ++ (storedSnapshots (history l n ms target previous fails)).getLast?.toList

end

theorem queued_fresh (n ms : Nat) (target : Option Nat) : (queued n ms target).Fresh :=
  ⟨rfl, fun s => by cases s <;> rfl, rfl, rfl⟩

theorem moves {w w' : Records} {n ms : Nat} {target : Option Nat} {previous : Option (Nat × Nat)} {fails : Bool}
    (new : ∀ x ∈ w.deployments, x.id ≠ dep n)
    (ledger : (w.ledger.replayFrom 0 (acknowledgedRecords (history w.ledger n ms target previous fails))).toOption =
      some w'.ledger)
    (deployments : w'.deployments = deploymentsAfter w.ledger n ms target previous fails w.deployments) :
    Moves app w w' := by
  have follows : Program.Follows (runDeploymentConfirmed (queued n ms target) (ctx previous) (cfg w.ledger previous))
      (history w.ledger n ms target previous fails) _ := Program.play_follows _ _
  rw [deploymentsAfter] at deployments
  -- Nothing of the run may be evaluated here.
  generalize history w.ledger n ms target previous fails = h at *
  exact .run (queued_fresh n ms target) new rfl follows (.inl ledger) deployments

end Successive

/-! ## A clock that is set back -/

namespace SetBack

open Successive

/-- The first deployment succeeds when the clock stands at 2000. -/
def first : Records where
  ledger := ledgerAfter .new 1 2000 none none false
  deployments := deploymentsAfter .new 1 2000 none none false []
  unique := by
    rw [Keyed.Unique]
    decide

/-- The second replaces it; by then the clock was set back. -/
def second : Records where
  ledger := ledgerAfter first.ledger 2 1000 none (some (1, 1)) false
  deployments := deploymentsAfter first.ledger 2 1000 none (some (1, 1)) false first.deployments
  unique := by
    rw [Keyed.Unique]
    decide +kernel

theorem first_moves : Moves app ⟨.new, [], List.nodup_nil⟩ first :=
  moves (fun x mem => by cases mem) (by decide +kernel) rfl

theorem second_moves : Moves app first second := moves (by decide +kernel) (by decide +kernel) rfl

end SetBack

/-- The deployment that succeeded last is not named: the one it replaced had succeeded at a later time. -/
theorem success_unnamed : ¬ ∀ app w w' d t, Reached app w → Moves app w w' → d ∈ w'.deployments →
    (∀ x ∈ w.deployments, x.id ≠ d.id) → d.status = .succeeded → w'.Left app d.id t → w'.Names app d.id := by
  intro always
  have named : (servingRelease SetBack.second.ledger SetBack.second.deployments Successive.app).map (·.containerOwner) =
      some (Successive.dep 1) := by decide +kernel
  have own : (candidates SetBack.second.ledger SetBack.second.deployments Successive.app).any
      (fun c => c.containerOwner = Successive.dep 2) = true := by decide +kernel
  have status : SetBack.second.deployments.any
      (fun d => d.id = Successive.dep 2 && d.status = .succeeded) = true := by decide +kernel
  have apart : ∀ x ∈ SetBack.first.deployments, x.id ≠ Successive.dep 2 := by decide +kernel
  have reached : Reached Successive.app SetBack.first := .move .new SetBack.first_moves
  have moves := SetBack.second_moves
  generalize SetBack.first = w, SetBack.second = w' at *
  obtain ⟨d, mem, status⟩ := List.any_eq_true.mp status
  obtain ⟨same, status⟩ := (Bool.and_eq_true _ _).mp status
  obtain ⟨c, inside, mine⟩ := List.any_eq_true.mp own
  have same := of_decide_eq_true same
  have left : w'.Left Successive.app d.id c.sinceMs :=
    Records.left_iff.mpr ⟨c, inside, (of_decide_eq_true mine).trans same.symm, rfl⟩
  obtain ⟨s, serving, owner⟩ := always _ w w' d _ reached moves mem (same ▸ apart) (of_decide_eq_true status) left
  rw [serving, Option.map_some, Option.some_inj, owner, same] at named
  exact absurd named (by decide)

theorem named_while_quiet_started :
    ((SetBack.first.started 3000).Names Successive.app (Successive.dep 1) ↔
      SetBack.first.Latest Successive.app (Successive.dep 1)) ∧
      SetBack.first.Names Successive.app (Successive.dep 1) := by
  have named : (servingRelease SetBack.first.ledger SetBack.first.deployments Successive.app).map
      (·.containerOwner) = some (Successive.dep 1) := by decide +kernel
  generalize SetBack.first = w at *
  obtain ⟨s, serving, owner⟩ := Option.map_eq_some_iff.mp named
  exact ⟨named_while_quiet (quiet_started w 3000 Successive.app), s, serving, owner⟩

end Harpoon.Deploy
