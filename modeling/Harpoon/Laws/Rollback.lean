import Harpoon.Deploy.Rollback
import Harpoon.Laws.Replayed
import Mathlib.Logic.Relation

/-!
# What can be rolled back to stays so

A release that can be rolled back to rests on three things: a deployment that succeeded, the configuration it pinned,
and an image that the ledger holds. Nothing that the program does takes one of them away, so that from then on the
release can be rolled back to whenever a later one is serving.
-/

namespace Harpoon.Deploy

open Interact Process

section

variable {l : Ledger} {app : ApplicationId} {ds : List Deployment} {target : ReleaseId} {r : RetainedRelease}
variable {d x : Deployment}

/-! ## The release that is named -/

/-- The release of a deployment is its own. -/
def Deployment.BuiltOwn (d : Deployment) : Prop := ∀ rel, d.release = some rel → rel = .fromDeployment d.id

/-- When the deployment ended that serves. -/
def servingEnded (l : Ledger) (ds : List Deployment) (app : ApplicationId) : Option Nat :=
  (servingRelease l ds app).bind fun s => (ds.find? fun d => d.id = s.deployment).map Deployment.endedMs

/-- The release of `d` as it is listed. -/
abbrev listed (l : Ledger) (ds : List Deployment) (app : ApplicationId) (d : Deployment) (target : ReleaseId) :
    RetainedRelease :=
  retainedRelease l app (servingRelease l ds app) (servingEnded l ds app) d target

theorem mem_retainedReleases : r ∈ retainedReleases l app ds ↔
    ∃ d ∈ ds, d.isRelease app = true ∧ ∃ rel, d.release = some rel ∧ r = listed l ds app d rel := by
  unfold retainedReleases
  rw [List.mem_mergeSort, List.mem_filterMap]
  constructor
  · rintro ⟨d, mem, made⟩
    split at made
    next isRelease =>
      obtain ⟨rel, release, rfl⟩ := Option.map_eq_some_iff.mp made
      exact ⟨d, mem, isRelease, rel, release, rfl⟩
    next => cases made
  · rintro ⟨d, mem, isRelease, rel, release, rfl⟩
    exact ⟨d, mem, by rw [if_pos isRelease, release]; rfl⟩

theorem listed_of_find (found : ((retainedReleases l app ds).find? fun r => r.release = target) = some r) :
    ∃ d ∈ ds, d.isRelease app = true ∧ d.release = some target ∧ r = listed l ds app d target := by
  have named : r.release = target := by simpa using List.find?_some found
  obtain ⟨d, mem, isRelease, rel, release, rfl⟩ := mem_retainedReleases.mp (List.mem_of_find?_eq_some found)
  have named : rel = target := named
  subst named
  exact ⟨d, mem, isRelease, release, rfl⟩

/-- Of deployments that built their own releases, one is named. -/
theorem selectTarget_named (unique : Keyed.Unique Deployment.id ds) (own : ∀ d ∈ ds, d.BuiltOwn) (mem : d ∈ ds)
    (isRelease : d.isRelease app = true) (release : d.release = some target) :
    selectTarget l app ds target =
      if (listed l ds app d target).eligible then .ok (listed l ds app d target)
      else .error (listed l ds app d target).problems := by
  unfold selectTarget
  cases found : (retainedReleases l app ds).find? fun r => r.release = target with
  | none =>
    have inside : listed l ds app d target ∈ retainedReleases l app ds :=
      mem_retainedReleases.mpr ⟨d, mem, isRelease, target, release, rfl⟩
    exact absurd (decide_eq_true rfl) (List.find?_eq_none.mp found _ inside)
  | some q =>
    obtain ⟨d', mem', -, release', rfl⟩ := listed_of_find found
    have same : ReleaseId.fromDeployment d.id = .fromDeployment d'.id :=
      (own d mem target release).symm.trans (own d' mem' target release')
    obtain rfl := unique.eq_of_key mem mem' (congrArg ReleaseId.deployment same)
    rfl

theorem selectTarget_ok (selected : selectTarget l app ds target = .ok r) :
    ∃ d ∈ ds, d.isRelease app = true ∧ d.release = some target ∧ r = listed l ds app d target ∧ r.problems = [] := by
  unfold selectTarget at selected
  split at selected
  next => cases selected
  next found =>
    split at selected
    next eligible =>
      cases selected
      obtain ⟨d, mem, isRelease, release, same⟩ := listed_of_find found
      exact ⟨d, mem, isRelease, release, same, List.isEmpty_iff.mp eligible⟩
    next => cases selected

/-- The serving release is another one, whose deployment ended later. -/
def LaterServing (l : Ledger) (ds : List Deployment) (app : ApplicationId) (r : RetainedRelease) : Prop :=
  ∃ s ended, servingRelease l ds app = some s ∧ servingEnded l ds app = some ended ∧ s.release ≠ r.release ∧
    r.finishedMs < ended

/-- Nothing of the deployment itself stands in the way. -/
structure Provable (l : Ledger) (app : ApplicationId) (d : Deployment) : Prop where
  pin : pinProblems d.pinned = []
  image : ∃ e ∈ l.entries, e.isRetainedImage app d.id = true

theorem servingProblems_nil {serving : Option Serving} {ended : Option Nat} {ms : Nat} :
    servingProblems serving ended target ms = [] ↔
      ∃ s t, serving = some s ∧ ended = some t ∧ s.release ≠ target ∧ ms < t := by
  unfold servingProblems
  cases serving with
  | none => simp
  | some s =>
    cases ended with
    | none => simp
    | some t =>
      dsimp only
      split
      next same => simp [same]
      next other =>
        split
        next early => simp [Nat.not_lt.mpr early]
        next late => simp [other, Nat.not_le.mp late]

theorem imageProblems_nil : imageProblems l app d = [] ↔ ∃ e ∈ l.entries, e.isRetainedImage app d.id = true := by
  unfold imageProblems
  rw [← List.any_eq_true]
  split
  next kept => simp [kept]
  next gone => simp [gone]

theorem problems_nil : (listed l ds app d target).problems = [] ↔
    LaterServing l ds app (listed l ds app d target) ∧ Provable l app d := by
  show _ ++ _ ++ _ = [] ↔ _
  rw [List.append_eq_nil_iff, List.append_eq_nil_iff, servingProblems_nil, imageProblems_nil, and_assoc]
  constructor
  · exact fun ⟨serving, pin, image⟩ => ⟨serving, pin, image⟩
  · exact fun ⟨serving, proved⟩ => ⟨serving, proved.pin, proved.image⟩

/-- A release that nothing stands in the way of. -/
theorem listed_free (free : (listed l ds app d target).problems = []) :
    listed l ds app d target = ⟨target, d.id, d.endedMs, d.pinned, false, []⟩ := by
  obtain ⟨⟨s, ended, serving, -, other, -⟩, -⟩ := problems_nil.mp free
  have unserved : (listed l ds app d target).serving = false := by
    show (servingRelease l ds app).any _ = false
    have other : s.release ≠ target := other
    simp [serving, other]
  show RetainedRelease.mk _ _ _ _ (listed l ds app d target).serving (listed l ds app d target).problems = _
  rw [free, unserved]

end

/-! ## A deployment builds its own release -/

section

variable {cfg : RunConfig} {previous : Option PreviousRelease} {d d' : Deployment} {Time : Nat → Prop}
  {Pin : ReleaseConfig → Prop} {ctx : Context} {h : History EngineSig} {l : Ledger}

theorem Deployment.BuiltOwn.congr (own : d.BuiltOwn) (id : d'.id = d.id) (release : d'.release = d.release) :
    d'.BuiltOwn := by
  unfold BuiltOwn
  rw [id, release]
  exact own

theorem Deployment.BuiltOwn.butCutover (own : d.BuiltOwn) (same : d.SameButCutover d') : d'.BuiltOwn :=
  own.congr same.id_eq (congrArg (·.release) same)

theorem Deployment.BuiltOwn.edit (own : d.BuiltOwn) (edit : Edit cfg previous Time Pin d d') : d'.BuiltOwn := by
  cases edit with
  | move _ moved =>
    rw [Deployment.transition_rest moved]
    exact own.congr rfl rfl
  | start _ started =>
    rw [(Deployment.startStep_ok started).2.rest]
    exact own.congr rfl rfl
  | finish _ finished =>
    rw [(Deployment.finishStep_ok finished).2.rest]
    exact own.congr rfl rfl
  | fail _ | pin _ | replace _ => exact own.congr rfl rfl
  | build => exact fun rel built => (Option.some.inj built).symm
  | begin _ _ _ begun => exact own.butCutover (Deployment.beginCutover_ok begun).2.1
  | need unneeded => exact own.butCutover (Deployment.cutoverNotRequired_ok unneeded).2.1
  | confirm _ confirmed => exact own.butCutover (Deployment.confirmCutover_ok confirmed).1
  | failCutover _ failed => exact own.butCutover (Deployment.failCutover_ok failed).2.1
  | recover _ started => exact own.butCutover (Deployment.startRecovery_ok started).2.1
  | recovered _ finished => exact own.butCutover (Deployment.finishRecovery_ok finished).1

/-- A snapshot is of a deployment whose release is its own. -/
def OwnOp : EngineOp → Prop
  | .persist d => d.BuiltOwn
  | _ => True

theorem upholds_own (cfg : RunConfig) (previous : Option PreviousRelease) :
    Upholds cfg previous (fun (_ : Unit) _ => ()) (fun _ => OwnOp) (fun _ _ => True) (fun _ _ => True)
      fun d _ _ => d.BuiltOwn where
  quiet {_ _ _ op} isQuiet inv := by
    cases op with
    | nowMs | persist _ | record _ | call _ _ | pinnedConfig => cases isQuiet
    | _ => exact ⟨trivial, fun _ => inv⟩
  clock inv := ⟨trivial, fun _ => ⟨inv, trivial⟩⟩
  call _ _ inv := ⟨trivial, fun _ => inv⟩
  record _ _ inv := ⟨trivial, inv, fun _ _ => inv⟩
  persist inv := ⟨inv, fun _ => inv⟩
  edit _ edit inv := inv.edit edit
  planned := trivial
  actual inv := ⟨trivial, fun _ => ⟨inv, fun _ _ => trivial⟩⟩
  keeps _ := trivial

theorem upholds_own_recovery (cfg : RunConfig) (prev : PreviousRelease) :
    UpholdsRecovery cfg prev (fun (_ : Unit) _ => ()) (fun _ => OwnOp) (fun _ _ => True) (fun _ _ => True)
      fun d _ _ => d.BuiltOwn where
  toUpholds := upholds_own cfg (some prev)
  begins {d d' _ _ _} _ _ begun inv := by
    have own : d'.BuiltOwn := by
      rw [Deployment.beginExplicitRecovery_rest begun]
      exact inv.congr rfl rfl
    exact ⟨own, fun _ => own⟩
  ends {d d₁ d' _ _ _ _} _ finished stepped inv := by
    have own : d'.BuiltOwn := by
      rw [(Deployment.finishStep_ok stepped).2.rest]
      exact (inv.butCutover (Deployment.finishRecovery_ok finished).1).congr rfl rfl
    exact ⟨own, fun _ => own⟩

theorem run_builds_own {q : Program EngineSig (Except EngineError Report × Run)} (unbuilt : d.release = none)
    (follows : Program.Follows (runDeploymentConfirmed d ctx cfg) h q) : ∀ e ∈ h, OwnOp e.op := by
  have start : d.BuiltOwn := fun rel built => by
    rw [unbuilt] at built
    cases built
  have upheld := run_ends (upholds_own cfg (previousOf ctx cfg)) (r := Run.start cfg d) (s := ()) start
  intro e mem
  obtain ⟨before, rest, split⟩ := List.append_of_mem mem
  exact lawful_iff.mp (Program.Obeys.follows upheld follows).2 before e rest split

theorem recover_builds_own {previous : PreviousRelease} {q : Program EngineSig (Except EngineError Report × Run)}
    (own : d.BuiltOwn) (follows : Program.Follows (recoverCutover d previous cfg) h q) : ∀ e ∈ h, OwnOp e.op := by
  have upheld := recover_ends (upholds_own_recovery cfg { previous with config := cfg.previous })
    (r := Run.start cfg d) (s := ()) own
  intro e mem
  obtain ⟨before, rest, split⟩ := List.append_of_mem mem
  exact lawful_iff.mp (Program.Obeys.follows upheld follows).2 before e rest split

end

/-! ## An entry that nothing is planned for -/

section

variable {l l' : Ledger} {h : History EngineSig} {e : Entry} {rs : List LedgerRecord} {ds : List Deployment}
  {ended : List (DeploymentId × EndState)} {observed : List Observed}

/-- The record is about the entry. -/
def LedgerRecord.About (r : LedgerRecord) (ref : EntryRef) : Prop := (r.deployment, r.key) = ref

theorem Ledger.absorb_untouched (mem : e ∈ l.entries) (other : ∀ r ∈ rs, ¬ r.About e.ref) : e ∈ (l.absorb rs).entries := by
  induction rs generalizing l with
  | nil => exact mem
  | cons r rs ih =>
    rw [Ledger.absorb_cons]
    refine ih ?_ fun r mem => other r (List.mem_cons_of_mem _ mem)
    rcases l.apply_cases r with ⟨-, same⟩ | applied
    · rw [same]
      exact mem
    · have unseen := applied.unseen (p := fun x => x.ref = e.ref) fun x own key => by
        have here := other r List.mem_cons_self
        rw [LedgerRecord.About, ← own, ← key] at here
        exact decide_eq_false here
      have inside : e ∈ l.entries.filter fun x => decide (x.ref = e.ref) := List.mem_filter.mpr ⟨mem, by simp⟩
      rw [← unseen] at inside
      exact (List.mem_filter.mp inside).1

/-- The image of a deployment that succeeded: it is recorded, and not for removal in any case. -/
structure Entry.KeptImage (e : Entry) (owner : DeploymentId) : Prop where
  own : e.deployment = owner
  recorded : e.id.isSome = true
  kept : e.disposition ≠ .removeAlways

theorem planEntry_kept {owner : DeploymentId} (kept : e.KeptImage owner) : planEntry e .succeeded observed = none := by
  have clean : shouldClean e.disposition .succeeded = false := by
    cases disposition : e.disposition with
    | retain | removeOnFailure => rfl
    | removeAlways => exact absurd disposition kept.kept
  unfold planEntry
  split
  · rfl
  · simp [clean, Option.isNone_eq_false_iff.mpr kept.recorded]

theorem endedAs_succeeded {d : Deployment} (unique : Keyed.Unique Deployment.id ds) (mem : d ∈ ds)
    (succeeded : d.status = .succeeded) : endedAs (Journal.endedStates ds) d.id = some .succeeded := by
  induction ds with
  | nil => cases mem
  | cons x xs ih =>
    have later : d ∈ xs → endedAs (Journal.endedStates xs) d.id = some .succeeded := ih (List.nodup_cons.mp unique).2
    unfold Journal.endedStates at later ⊢
    rw [List.filterMap_cons]
    by_cases same : x.id = d.id
    · obtain rfl := unique.eq_of_key List.mem_cons_self mem same
      rw [succeeded]
      simp [endedAs, endState]
    · have inside : d ∈ xs := (List.mem_cons.mp mem).resolve_left fun here => same (here ▸ rfl)
      cases endState x.status with
      | none => exact later inside
      | some t =>
        rw [← later inside]
        simp [endedAs, same]

/-- A reconciliation that is told how the deployments ended writes nothing about the image of one that succeeded. -/
theorem reconcile_spares {d : Deployment} {q : Program EngineSig (Except EngineError (List Observed) × Ledger)}
    (unique : Keyed.Unique Deployment.id ds) (mem : d ∈ ds) (succeeded : d.status = .succeeded) (sound : l.Sound)
    (inside : e ∈ l.entries) (kept : e.KeptImage d.id)
    (follows : Program.Follows ((reconcile (Journal.endedStates ds)).toProgram l) h q) :
    ∀ x ∈ h, ∀ r, x.op = .record r → ¬ r.About e.ref := by
  have other : ∀ {observed}, ∀ a ∈ plan l observed (Journal.endedStates ds), ∀ entry, a.target? = some entry →
      entry ≠ e.ref := by
    intro observed a planned entry target same
    rcases mem_plan planned with ⟨x, listed, state, known, made⟩ | ⟨o, -, rfl⟩
    · rw [(planEntry_planned made).1.target?] at target
      cases target
      obtain rfl := sound.unique.eq_of_key listed inside same
      rw [kept.own, endedAs_succeeded unique mem succeeded] at known
      cases known
      rw [planEntry_kept kept] at made
      cases made
    · cases target
  have spared : ∀ observed, ∀ a ∈ plan l observed (Journal.endedStates ds), ∀ entry, a.target? = some entry →
      ∀ r, About entry r → ¬ r.About e.ref := fun _ a planned entry target r about same =>
    other a planned entry target (about.1.symm.trans same)
  have meets : Meets lose (fun _ => CleanupOp fun r => ¬ r.About e.ref) (reconcile (Journal.endedStates ds))
      (fun _ _ lost => lost = false) (fun err _ _ => err.notTransition) l false := by
    refine meets_bind.mpr (meets_ask.mpr ⟨trivial, fun listed => ?_⟩)
    cases listed with
    | ok observed =>
      refine meets_bind.mpr (meets_get.mpr ?_)
      have parts : ∀ a, a ∈ ((plan l observed (Journal.endedStates ds)).partition Action.isReleaseLease).1 ∨
          a ∈ ((plan l observed (Journal.endedStates ds)).partition Action.isReleaseLease).2 →
            a ∈ plan l observed (Journal.endedStates ds) := by
        intro a
        rw [List.partition_eq_filter_filter]
        exact fun either => either.elim (fun mem => (List.mem_filter.mp mem).1) fun mem => (List.mem_filter.mp mem).1
      have clean := (executeActions_cleans fun a mem => spared observed a (parts a (.inr mem))).bind fun reported =>
        (releaseLeases_cleans fun a mem => spared observed a (parts a (.inl mem))).bind fun more =>
          (show Cleans (fun r => ¬ r.About e.ref) (pure (reported ++ more)) from Keeps.pure)
      exact clean l false rfl
    | error err =>
      refine meets_bind.mpr (meets_get.mpr ?_)
      have failed : Cleans (fun r => ¬ r.About e.ref) (failActions err.message (plan l [] (Journal.endedStates ds))) :=
        failActions_cleans (spared [])
      have clean := failed.bind fun _ =>
        (show Cleans (fun r => ¬ r.About e.ref) (pure ([] : List Observed)) from Keeps.pure)
      exact clean l false rfl
  intro x mem r record same
  obtain ⟨before, rest, split⟩ := List.append_of_mem mem
  have allowed := lawful_iff.mp (Program.Obeys.follows meets follows).2 before x rest split
  rw [record] at allowed
  exact allowed same

end

end Harpoon.Deploy

namespace Harpoon.Journal

open Deploy Interact Process

section

variable {β σ : Type} {keep : Keeping β σ} {lines more : List (Line β)} {st st' : State σ} {d : Deployment} {e : Entry}

/-- What every state of the program satisfies, beside the replay of its journal. -/
structure Lasting (st : State σ) : Prop where
  unique : Keyed.Unique Deployment.id st.deployments
  sound : st.ledger.Sound
  own : ∀ d ∈ st.deployments, d.BuiltOwn

/-- The release of `d` can be served again, from the image `e`. -/
structure Backed (st : State σ) (d : Deployment) (e : Entry) : Prop where
  mem : d ∈ st.deployments
  succeeded : d.status = .succeeded
  inside : e ∈ st.ledger.entries
  kept : e.KeptImage d.id

theorem note_ledger {l : Line β} (note : l.IsNote) (applied : st.apply keep 0 l = .ok st') : st'.ledger = st.ledger := by
  cases l with
  | snapshot _ | ledger _ => cases note
  | header v =>
    cases applied
    rfl
  | control r | other r =>
    unfold State.apply at applied
    dsimp only at applied
    split at applied <;> cases applied
    rfl

theorem recoverDeployment_own {ms : Nat} (own : d.BuiltOwn) : (recoverDeployment d ms).1.BuiltOwn := by
  unfold recoverDeployment
  split
  · dsimp only
    split
    · exact own.congr rfl rfl
    · exact own
  · dsimp only
    split
    next moved =>
      rw [Deployment.transition_rest moved]
      exact own.congr rfl rfl
    next => exact own.congr rfl rfl

theorem recoverDeployment_succeeded {ms : Nat} (succeeded : d.status = .succeeded) : (recoverDeployment d ms).1 = d := by
  simp [recoverDeployment, succeeded, DeploymentStatus.isTerminal]

/-- A snapshot that a history stored last, as a history that follows the rule may. -/
theorem last_stored {rule : EngineOp → Prop} {h : History EngineSig} {x : Deployment} (lawful : ∀ e ∈ h, rule e.op)
    (found : (storedSnapshots h).getLast? = some x) : rule (.persist x) := by
  obtain ⟨e, mem, persist⟩ := last_asked found
  exact persist ▸ lawful e mem

/-- Step lemma. -/
theorem Lasting.writes (lasting : Lasting st) (unique : Keyed.Unique Deployment.id st'.deployments)
    (writes : Writes keep st more st') : Lasting st' := by
  cases writes with
  | note note applied =>
    refine ⟨unique, note_ledger note applied ▸ lasting.sound, ?_⟩
    rw [(note_deployments note applied).1]
    exact lasting.own
  | @run d ctx cfg h q fresh unbuilt new prior follows shut =>
    refine ⟨unique, lasting.sound.absorb _, fun x mem => ?_⟩
    rcases List.mem_append.mp mem with mem | mem
    · exact lasting.own x mem
    · exact last_stored (run_builds_own unbuilt follows) (Option.mem_toList.mp mem)
  | @recover earlier later d previous cfg h q known prior follows shut =>
    have own : ∀ x ∈ earlier ++ d :: later, x.BuiltOwn := known ▸ lasting.own
    refine ⟨unique, lasting.sound.absorb _, fun x mem => ?_⟩
    rcases List.mem_append.mp mem with mem | mem
    · exact own x (List.mem_append_left _ mem)
    · rcases List.mem_cons.mp mem with rfl | mem
      · cases found : (storedSnapshots h).getLast? with
        | none => exact own d (by simp)
        | some x => exact last_stored (recover_builds_own (own d (by simp)) follows) found
      · exact own x (by simp [mem])
  | @start marked rest nowMs known =>
    refine ⟨unique, lasting.sound, fun x mem => ?_⟩
    rw [recoverOnStart_map] at mem
    rcases List.mem_append.mp mem with mem | mem
    · obtain ⟨y, inside, rfl⟩ := List.mem_map.mp mem
      exact recoverDeployment_own (lasting.own y (by simp [known, inside]))
    · exact lasting.own x (by simp [known, mem])
  | reconcile follows shut => exact ⟨unique, lasting.sound.absorb _, lasting.own⟩

theorem Grown.lasting (grown : Grown keep lines st) : Lasting st := by
  induction grown with
  | empty => exact ⟨List.nodup_nil, Ledger.sound_new, fun d mem => by cases mem⟩
  | more before writes ih => exact ih.writes (before.more writes).replays.unique writes

/-- The records of another deployment leave the entry as it is. -/
theorem absorb_stored_untouched {h : History EngineSig} {l : Ledger} (inside : e ∈ l.entries)
    (other : ∀ x ∈ h, ∀ r, x.op = .record r → ¬ r.About e.ref) : e ∈ (l.absorb (storedRecords h)).entries := by
  refine Ledger.absorb_untouched inside fun r mem => ?_
  obtain ⟨x, within, record⟩ := mem_ledgerRecords mem
  exact other x within r record

theorem Of.notAbout {r : LedgerRecord} {x : Deployment} (of : r.Of x) (other : x.id ≠ e.deployment) : ¬ r.About e.ref :=
  fun about => other (of.deployment_eq.symm.trans (congrArg Prod.fst about))

/-- Step lemma. -/
theorem Backed.writes (backed : Backed st d e) (lasting : Lasting st) (writes : Writes keep st more st') :
    Backed st' d e := by
  have ⟨mem, succeeded, inside, kept⟩ := backed
  cases writes with
  | note note applied =>
    exact ⟨(note_deployments note applied).1.symm ▸ mem, succeeded, note_ledger note applied ▸ inside, kept⟩
  | @run x ctx cfg h q fresh unbuilt new prior follows shut =>
    refine ⟨List.mem_append_left _ mem, succeeded, absorb_stored_untouched inside fun y within r record => ?_, kept⟩
    have of : r.Of x := by simpa [Traced, record] using run_traced fresh follows y within
    exact Of.notAbout of fun same => new d mem (kept.own.symm.trans same.symm)
  | @recover earlier later x previous cfg h q known prior follows shut =>
    cases can : x.canRecoverExplicitly with
    | false =>
      obtain rfl := recover_refused can follows
      exact ⟨by simpa [storedSnapshots, ← known] using mem, succeeded, inside, kept⟩
    | true =>
      have other : d ≠ x := fun same => Deployment.not_endedServing can (.inl (same ▸ succeeded))
      have unique : Keyed.Unique Deployment.id (earlier ++ x :: later) := known ▸ lasting.unique
      have around : d ∈ earlier ∨ d ∈ later := by simpa [known, other] using mem
      refine ⟨by rcases around with mem | mem <;> simp [mem], succeeded,
        absorb_stored_untouched inside fun y within r record => ?_, kept⟩
      have of : r.Of x := by simpa [Recovers, record] using recover_traced follows y within
      exact Of.notAbout of fun same => other (unique.eq_of_key (known ▸ mem) (by simp) (kept.own.symm.trans same.symm))
  | @start marked rest nowMs known =>
    refine ⟨?_, succeeded, inside, kept⟩
    rw [recoverOnStart_map]
    rcases List.mem_append.mp (known ▸ mem) with mem | mem
    · exact List.mem_append_left _ (List.mem_map.mpr ⟨d, mem, recoverDeployment_succeeded succeeded⟩)
    · exact List.mem_append_right _ mem
  | @reconcile h q follows shut =>
    exact ⟨mem, succeeded, absorb_stored_untouched inside
      (reconcile_spares lasting.unique mem succeeded lasting.sound inside kept follows), kept⟩

/-- Run lemma. -/
theorem Backed.later (backed : Backed st d e) (grown : Grown keep lines st)
    (later : Relation.ReflTransGen (fun s s' => ∃ more, Writes keep s more s') st st') :
    Backed st' d e ∧ ∃ lines', Grown keep lines' st' := by
  induction later with
  | refl => exact ⟨backed, lines, grown⟩
  | tail _ step ih =>
    obtain ⟨more, writes⟩ := step
    obtain ⟨backed, lines', grown⟩ := ih
    exact ⟨backed.writes grown.lasting writes, _, grown.more writes⟩

/-- **What can be rolled back to stays so.** Whatever the program does after a release could be rolled back to, each
part of it cut short anywhere: the release can be rolled back to, as the same one, exactly while a release serves that
is another and ended later. If it cannot, the serving release is the whole reason. -/
theorem rollback_stays (keep : Keeping β σ) (lines : List (Line β)) (st st' : State σ) (grown : Grown keep lines st)
    (later : Relation.ReflTransGen (fun s s' => ∃ more, Writes keep s more s') st st') (app : ApplicationId)
    (target : ReleaseId) (r : RetainedRelease) (selected : selectTarget st.ledger app st.deployments target = .ok r)
    (kept : ∀ e ∈ st.ledger.entries, e.isRetainedImage app r.deployment = true → e.disposition ≠ .removeAlways) :
    (selectTarget st'.ledger app st'.deployments target = .ok r ↔ LaterServing st'.ledger st'.deployments app r) ∧
      ∀ problems, selectTarget st'.ledger app st'.deployments target = .error problems →
        problems = servingProblems (servingRelease st'.ledger st'.deployments app)
          (servingEnded st'.ledger st'.deployments app) target r.finishedMs := by
  obtain ⟨d, mem, isRelease, release, rfl, free⟩ := selectTarget_ok selected
  obtain ⟨-, pin, image⟩ := problems_nil.mp free
  obtain ⟨e, inside, retained⟩ := image
  have ⟨⟨app_, succeeded⟩, first⟩ : (d.applicationId = app ∧ d.status = .succeeded) ∧ d.rollbackTo.isNone = true := by
    simpa [Deployment.isRelease] using isRelease
  have keptImage : e.KeptImage d.id := by
    have all := retained
    simp only [Entry.isRetainedImage, Bool.and_eq_true, decide_eq_true_iff] at all
    exact ⟨all.1.1.1.1, all.1.2, kept e inside retained⟩
  have backed : Backed st d e := ⟨mem, succeeded, inside, keptImage⟩
  obtain ⟨backed', lines', grown'⟩ := backed.later grown later
  have lasting := grown'.lasting
  have named := selectTarget_named (l := st'.ledger) lasting.unique lasting.own backed'.mem isRelease release
  have problems : (listed st'.ledger st'.deployments app d target).problems = servingProblems
      (servingRelease st'.ledger st'.deployments app) (servingEnded st'.ledger st'.deployments app) target d.endedMs := by
    show _ ++ pinProblems d.pinned ++ imageProblems st'.ledger app d = _
    rw [pin, imageProblems_nil.mpr ⟨e, backed'.inside, retained⟩, List.append_nil, List.append_nil]
  have free' : (listed st'.ledger st'.deployments app d target).problems = [] ↔
      LaterServing st'.ledger st'.deployments app (listed st.ledger st.deployments app d target) := by
    rw [problems]
    exact servingProblems_nil
  rw [named]
  constructor
  · rw [← free', listed_free free]
    split
    next eligible =>
      have none_ := List.isEmpty_iff.mp eligible
      rw [listed_free none_]
      simp
    next ineligible => simpa using fun none_ => ineligible (List.isEmpty_iff.mpr none_)
  · intro ps refused
    split at refused
    next => cases refused
    next =>
      cases refused
      exact problems

end

/-! ## A deployment that was replaced -/

namespace WentBack

open Successive

/-- Each run builds an image, too. -/
def answers (n ms : Nat) : (op : EngineOp) → op.Answer
  | .call .build _ =>
    .ask (.intend ⟨.image, s!"harpoon/app:{n}"⟩ .retain) fun
      | .ok intent => .ask (.receipt intent "sha256:4") fun _ => .done ()
      | .error _ => .done ()
  | op => Successive.answers n ms false op

def history (l : Ledger) (n ms : Nat) (previous : Option (Nat × Nat)) : History EngineSig :=
  ((runDeploymentConfirmed (queued n ms none) (ctx previous) (cfg l previous)).play (answers n ms)).1

def after (st : State Unit) (n ms : Nat) (previous : Option (Nat × Nat)) : State Unit :=
  { st with
    deployments := st.deployments ++ (storedSnapshots (history st.ledger n ms previous)).getLast?.toList
    ledger := st.ledger.absorb (storedRecords (history st.ledger n ms previous)) }

theorem sealed_of_acknowledged {h : History EngineSig}
    (all : (h.all fun e => (written? e).all Written.isAcknowledged) = true) : Sealed h := by
  refine List.pairwise_iff_forall_sublist.mpr fun {e e'} pair failed => ?_
  have mem : e ∈ h := pair.subset List.mem_cons_self
  have acknowledged := List.all_eq_true.mp all e mem
  obtain ⟨w, writes, lost⟩ := (Option.any_eq_true _ _).mp failed
  rw [writes, Option.all_some] at acknowledged
  simp [acknowledged] at lost

theorem writes {st : State Unit} {n ms : Nat} {previous : Option (Nat × Nat)} (new : ∀ x ∈ st.deployments, x.id ≠ dep n)
    (acknowledged : ((history st.ledger n ms previous).all fun e => (written? e).all Written.isAcknowledged) = true) :
    Writes FirstWrite.keep st (storedLines (history st.ledger n ms previous)) (after st n ms previous) := by
  have follows : Program.Follows (runDeploymentConfirmed (queued n ms none) (ctx previous) (cfg st.ledger previous))
      (history st.ledger n ms previous) _ := Program.play_follows _ _
  rw [after]
  -- Nothing of the run may be evaluated here.
  generalize history st.ledger n ms previous = h at *
  exact .run (queued_fresh n ms none) rfl new rfl follows (sealed_of_acknowledged acknowledged)

def first : State Unit := after (State.start FirstWrite.keep) 1 1000 none

/-- The second deployment replaces the first. -/
def second : State Unit := after first 2 2000 (some (1, 1))

def started : State Unit := { second with deployments := (recoverOnStart second.deployments 3000).1 }

def target : ReleaseId := .fromDeployment (dep 1)

def release : RetainedRelease := ⟨target, dep 1, 1000, some (pinned 1), false, []⟩

theorem grown : ∃ lines, Grown FirstWrite.keep lines second := by
  have one : Writes FirstWrite.keep (State.start FirstWrite.keep) _ first :=
    writes (fun x mem => by cases mem) (by decide +kernel)
  have two : Writes FirstWrite.keep first _ second := writes (by decide +kernel) (by decide +kernel)
  exact ⟨_, (Grown.empty.more one).more two⟩

theorem starts : Writes FirstWrite.keep second (startLines second.deployments 3000) started := by
  rw [started]
  generalize second = st
  have all : st.deployments = st.deployments ++ [] := (List.append_nil _).symm
  have started : Writes FirstWrite.keep st _ _ := .start 3000 all
  rwa [List.append_nil] at started

theorem selected : selectTarget second.ledger app second.deployments target = .ok release := by
  have known : (second.deployments.any fun d => d.isRelease app && d.release = some target &&
      listed second.ledger second.deployments app d target = release) = true := by decide +kernel
  obtain ⟨lines, grown⟩ := grown
  have lasting := grown.lasting
  generalize second = st at *
  obtain ⟨d, mem, found⟩ := List.any_eq_true.mp known
  simp only [Bool.and_eq_true, decide_eq_true_iff] at found
  obtain ⟨⟨isRelease, released⟩, same⟩ := found
  rw [selectTarget_named lasting.unique lasting.own mem isRelease released, same]
  rfl

end WentBack

theorem rollback_stays_started :
    (selectTarget WentBack.started.ledger Successive.app WentBack.started.deployments WentBack.target =
        .ok WentBack.release ↔
      LaterServing WentBack.started.ledger WentBack.started.deployments Successive.app WentBack.release) ∧
      ∀ problems, selectTarget WentBack.started.ledger Successive.app WentBack.started.deployments WentBack.target =
          .error problems →
        problems = servingProblems (servingRelease WentBack.started.ledger WentBack.started.deployments Successive.app)
          (servingEnded WentBack.started.ledger WentBack.started.deployments Successive.app) WentBack.target
          WentBack.release.finishedMs := by
  obtain ⟨lines, grown⟩ := WentBack.grown
  have kept : (WentBack.second.ledger.entries.all fun e => e.disposition ≠ .removeAlways) = true := by decide +kernel
  exact rollback_stays FirstWrite.keep lines WentBack.second WentBack.started grown (.single ⟨_, WentBack.starts⟩) _ _ _
    WentBack.selected fun e mem _ => of_decide_eq_true (List.all_eq_true.mp kept e mem)

end Harpoon.Journal
