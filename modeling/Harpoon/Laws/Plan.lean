import Harpoon.Laws.Ledger

/-!
# What a plan proposes

`Planned` says, for one entry of a deployment that ended, which action is proposed and why. From it:
an object is removed or adopted only when the entry owns it (`Owns`), an object that no entry owns is
at most reported, and every entry that needs a decision gets one action, in the ledger's order.
-/

namespace Harpoon.Deploy

/-- The object is the entry's: of its kind, with its recorded id or (while it has none) its intended
name, and with exactly the labels of its deployment. -/
structure Owns (e : Entry) (o : Observed) : Prop where
  kind : o.kind = e.key.kind
  identity : e.id = some o.id ∨ e.id = none ∧ o.name = e.key.name
  managed : o.label Labels.managed = some "true"
  app : o.label Labels.app = some e.app.asStr
  deployment : o.label Labels.deployment = some e.deployment.asStr

/-- Nothing more will be done about the entry, or nothing has to be done. -/
def needsDecision (e : Entry) (state : EndState) : Bool :=
  !e.isSettled && (shouldClean e.disposition state || e.id.isNone)

/-- The action proposed for an entry of a deployment that ended as `state`. -/
inductive Planned (e : Entry) (state : EndState) (observed : List Observed) : Action → Prop where
  | remove {o} (clean : shouldClean e.disposition state = true) (found : foundFor e observed = some o)
      (ours : o.labelledFor e.app e.deployment = true) :
      Planned e state observed (.remove e.ref o e.id.isNone)
  | adopt {o} (clean : shouldClean e.disposition state = false) (noId : e.id = none)
      (found : foundFor e observed = some o) (ours : o.labelledFor e.app e.deployment = true) :
      Planned e state observed (.adopt e.ref o)
  | releaseLease (lease : e.key.kind = .portLease) : Planned e state observed (.releaseLease e.ref)
  | refuse {o} (found : foundFor e observed = some o)
      (notOurs : o.labelledFor e.app e.deployment = false) :
      Planned e state observed (.refuse e.ref (Deploy.notOurs e))
  | markAbsent (absent : foundFor e observed = none) : Planned e state observed (.markAbsent e.ref)

section

variable {l : Ledger} {e : Entry} {state : EndState} {observed : List Observed} {o : Observed}
  {ended : List (DeploymentId × EndState)} {a : Action}

/-- An action is proposed exactly for an entry that needs a decision. -/
theorem planEntry_isSome : (planEntry e state observed).isSome = needsDecision e state := by
  unfold planEntry needsDecision Entry.isSettled
  cases e.isReleased || e.isRefused with
  | true => rfl
  | false =>
    cases shouldClean e.disposition state <;> cases e.id.isNone <;> try rfl
    all_goals
      by_cases lease : e.key.kind = .portLease
      · simp [lease]
      · cases foundFor e observed with
        | none => simp [lease]
        | some o => cases labelled : o.labelledFor e.app e.deployment <;> simp [lease, labelled]

/-- What is proposed, and why; only leases are released, and leases are only released. -/
theorem planEntry_planned (h : planEntry e state observed = some a) :
    Planned e state observed a ∧ needsDecision e state = true ∧
      (a.isReleaseLease = true ↔ e.key.kind = .portLease) := by
  have needs : needsDecision e state = true := by rw [← planEntry_isSome, h]; rfl
  have unsettled : (e.isReleased || e.isRefused) = false := by
    have := (Bool.and_eq_true_iff.mp needs).1
    simpa [Entry.isSettled] using this
  unfold planEntry at h
  rw [unsettled, if_neg Bool.false_ne_true] at h
  dsimp only at h
  split at h
  · cases h
  next wanted =>
    split at h
    next lease => cases h; exact ⟨.releaseLease lease, needs, by simp [Action.isReleaseLease, lease]⟩
    next object =>
      have other : ∀ {b : Action}, b.isReleaseLease = false →
          (b.isReleaseLease = true ↔ e.key.kind = .portLease) := by
        intro b hb; simp [hb, object]
      split at h
      next o found =>
        split at h
        next ours =>
          split at h
          next clean => cases h; exact ⟨.remove clean found ours, needs, other rfl⟩
          next keep =>
            have clean : shouldClean e.disposition state = false := by simpa using keep
            have noId : e.id = none := by simpa [clean] using wanted
            cases h; exact ⟨.adopt clean noId found ours, needs, other rfl⟩
        next foreign => cases h; exact ⟨.refuse found (by simpa using foreign), needs, other rfl⟩
      next absent => cases h; exact ⟨.markAbsent absent, needs, other rfl⟩

theorem Planned.target? (h : Planned e state observed a) : a.target? = some e.ref := by
  cases h <;> rfl

/-- What an entry is matched with was reported, is of its kind and has its id or intended name. -/
theorem foundFor_spec (found : foundFor e observed = some o) :
    o ∈ observed ∧ o.kind = e.key.kind ∧
      (e.id = some o.id ∨ e.id = none ∧ o.name = e.key.name) := by
  unfold foundFor at found
  cases recorded : e.id with
  | some id =>
    simp only [recorded, Option.bind_some, Option.isNone_some, Bool.false_eq_true, if_false,
      Option.or_none] at found
    have holds := List.find?_some found
    have here := of_decide_eq_true holds
    exact ⟨List.mem_of_find?_eq_some found, here.1, .inl (here.2 ▸ rfl)⟩
  | none =>
    simp only [recorded, Option.bind_none, Option.isNone_none, if_true, Option.none_or] at found
    have holds := List.find?_some found
    have here := of_decide_eq_true holds
    exact ⟨List.mem_of_find?_eq_some found, here.1, .inr ⟨rfl, here.2⟩⟩

theorem labelledFor_iff {app : ApplicationId} {d : DeploymentId} :
    o.labelledFor app d = true ↔
      o.label Labels.managed = some "true" ∧ o.label Labels.app = some app.asStr ∧
        o.label Labels.deployment = some d.asStr := by
  simp [Observed.labelledFor, and_assoc]

/-- An object that is found and labelled is owned. -/
theorem owns_of_found (found : foundFor e observed = some o)
    (ours : o.labelledFor e.app e.deployment = true) : Owns e o := by
  obtain ⟨_, kind, identity⟩ := foundFor_spec found
  obtain ⟨managed, app, deployment⟩ := labelledFor_iff.mp ours
  exact ⟨kind, identity, managed, app, deployment⟩

/-- The action proposed for an entry, if its deployment ended. -/
def planFor (ended : List (DeploymentId × EndState)) (observed : List Observed) (e : Entry) :
    Option Action :=
  (endedAs ended e.deployment).bind fun state => planEntry e state observed

theorem planFor_some (h : planFor ended observed e = some a) :
    ∃ state, endedAs ended e.deployment = some state ∧ planEntry e state observed = some a :=
  Option.bind_eq_some_iff.mp h

theorem planUnknown_reports (h : planUnknown l ended o = some a) : a = .reportOnly o unknownObject := by
  unfold planUnknown at h
  split at h
  · cases h
  · split at h
    · dsimp only at h
      split at h <;> cases h
      rfl
    · cases h

/-- An action of the plan is proposed for an entry of an ended deployment, or only reports. -/
theorem mem_plan (h : a ∈ plan l observed ended) :
    (∃ e ∈ l.entries, ∃ state, endedAs ended e.deployment = some state ∧
      planEntry e state observed = some a) ∨
    ∃ o ∈ observed, a = .reportOnly o unknownObject := by
  rcases List.mem_append.mp h with h | h
  · obtain ⟨e, mem, planned⟩ := List.mem_filterMap.mp h
    exact .inl ⟨e, mem, planFor_some planned⟩
  · obtain ⟨o, mem, unknown⟩ := List.mem_filterMap.mp h
    exact .inr ⟨o, mem, planUnknown_reports unknown⟩

/-- The actions about entries: one for each entry of an ended deployment that needs a decision, in
the ledger's order. -/
theorem plan_entries (l : Ledger) (observed : List Observed) (ended : List (DeploymentId × EndState)) :
    (plan l observed ended).filterMap Action.target? =
      (l.entries.filter fun e => (endedAs ended e.deployment).any (needsDecision e)).map Entry.ref := by
  have reports : (observed.filterMap (planUnknown l ended)).filterMap Action.target? = [] := by
    refine List.filterMap_eq_nil_iff.mpr fun a ha => ?_
    obtain ⟨o, _, unknown⟩ := List.mem_filterMap.mp ha
    rw [planUnknown_reports unknown]
    rfl
  unfold plan
  rw [List.filterMap_append, reports, List.append_nil]
  induction l.entries with
  | nil => rfl
  | cons e es ih =>
    cases ending : endedAs ended e.deployment with
    | none => simpa [List.filterMap_cons, ending] using ih
    | some state =>
      have same : needsDecision e state = (planEntry e state observed).isSome := planEntry_isSome.symm
      cases planned : planEntry e state observed with
      | none => simpa [List.filterMap_cons, ending, same, planned] using ih
      | some a =>
        have about := (planEntry_planned planned).1.target?
        simpa [List.filterMap_cons, ending, same, planned, about] using ih

/-- The actions about one entry that needs a decision: exactly one. -/
theorem plan_one (observed : List Observed) (unique : Keyed.Unique Entry.ref l.entries) (mem : e ∈ l.entries)
    (ending : endedAs ended e.deployment = some state) (needs : needsDecision e state = true) :
    ∃ a, planEntry e state observed = some a ∧
      (plan l observed ended).filter (fun a => a.target? = some e.ref) = [a] := by
  obtain ⟨a, planned⟩ := Option.isSome_iff_exists.mp (planEntry_isSome.trans needs)
  refine ⟨a, planned, ?_⟩
  have reports : (observed.filterMap (planUnknown l ended)).filter
      (fun a => a.target? = some e.ref) = [] := by
    refine List.filter_eq_nil_iff.mpr fun b hb => ?_
    obtain ⟨o, _, unknown⟩ := List.mem_filterMap.mp hb
    rw [planUnknown_reports unknown]
    exact Bool.false_ne_true
  unfold plan
  rw [List.filter_append, reports, List.append_nil]
  refine unique.filterMap_filter ?_ mem ?_
  · intro x b hb
    obtain ⟨_, _, planned⟩ := planFor_some hb
    exact (planEntry_planned planned).1.target?
  · rw [ending]
    exact planned

/-- The object an action removes, adopts or reports. -/
def Action.observed? : Action → Option Observed
  | .remove _ o _ | .adopt _ o | .reportOnly o _ => some o
  | .releaseLease _ | .markAbsent _ | .refuse _ _ => none

theorem needsDecision_iff :
    needsDecision e state = true ↔ e.isReleased = false ∧ e.isRefused = false ∧
      (shouldClean e.disposition state = true ∨ e.id = none) := by
  simp [needsDecision, Entry.isSettled, and_assoc]

theorem shouldClean_retain (clean : shouldClean e.disposition state = true) :
    e.disposition ≠ .retain := by
  intro retained
  rw [retained] at clean
  cases clean

/-- An action that touches an object of the runtime is about an entry that owns it. -/
theorem Planned.owns (h : Planned e state observed a) (touches : a.observed? = some o) :
    Owns e o ∧ o ∈ observed := by
  cases h with
  | remove clean found ours | adopt clean noId found ours =>
    cases touches
    exact ⟨owns_of_found found ours, (foundFor_spec found).1⟩
  | releaseLease lease | refuse found foreign | markAbsent absent => cases touches

/-- **A plan is safe and complete**, for every ledger, everything the runtime reports and every set of
ended deployments. What it removes is owned by an entry of an ended deployment that is not released,
refused or retained, and what it only adopts by one that has no id; an object no entry owns is at
most reported; an entry that is matched with an object it does not own is refused; and every entry
that should be cleaned has exactly one action. -/
theorem plan_safe_and_complete (records : List LedgerRecord) (observed : List Observed)
    (ended : List (DeploymentId × EndState)) :
    let l := Ledger.after records
    let actions := plan l observed ended
    (∀ ref o adopt, .remove ref o adopt ∈ actions →
      ∃ e ∈ l.entries, ∃ state, e.ref = ref ∧ endedAs ended e.deployment = some state ∧
        e.isReleased = false ∧ e.isRefused = false ∧ e.disposition ≠ .retain ∧
        o ∈ observed ∧ Owns e o ∧ adopt = e.id.isNone) ∧
    (∀ ref o, .adopt ref o ∈ actions →
      ∃ e ∈ l.entries, ∃ state, e.ref = ref ∧ endedAs ended e.deployment = some state ∧
        e.isReleased = false ∧ e.isRefused = false ∧ o ∈ observed ∧ Owns e o ∧ e.id = none) ∧
    (∀ o, (∀ e ∈ l.entries, ¬ Owns e o) →
      ∀ a ∈ actions, a.observed? = some o → ∃ why, a = .reportOnly o why) ∧
    (∀ e ∈ l.entries, ∀ state o, endedAs ended e.deployment = some state →
      needsDecision e state = true → e.key.kind ≠ .portLease → foundFor e observed = some o →
      ¬ Owns e o → actions.filter (·.target? = some e.ref) = [.refuse e.ref (notOurs e)]) ∧
    (∀ e ∈ l.entries, ∀ state, endedAs ended e.deployment = some state →
      e.isReleased = false → e.isRefused = false → shouldClean e.disposition state = true →
      ∃ a, actions.filter (·.target? = some e.ref) = [a]) := by
  intro l actions
  have unique : Keyed.Unique Entry.ref l.entries := (Ledger.sound_after records).unique
  refine ⟨?_, ?_, ?_, ?_, ?_⟩
  · intro ref o adopt mem
    rcases mem_plan mem with ⟨e, he, state, ending, proposed⟩ | ⟨o, _, report⟩
    · obtain ⟨planned, needs, _⟩ := planEntry_planned proposed
      obtain ⟨released, refused, _⟩ := needsDecision_iff.mp needs
      obtain ⟨owns, seen⟩ := planned.owns rfl
      cases planned with
      | remove clean found ours =>
        exact ⟨e, he, state, rfl, ending, released, refused, shouldClean_retain clean, seen, owns, rfl⟩
    · cases report
  · intro ref o mem
    rcases mem_plan mem with ⟨e, he, state, ending, proposed⟩ | ⟨o, _, report⟩
    · obtain ⟨planned, needs, _⟩ := planEntry_planned proposed
      obtain ⟨released, refused, _⟩ := needsDecision_iff.mp needs
      obtain ⟨owns, seen⟩ := planned.owns rfl
      cases planned with
      | adopt clean noId found ours =>
        exact ⟨e, he, state, rfl, ending, released, refused, seen, owns, noId⟩
    · cases report
  · intro o foreign a mem touches
    rcases mem_plan mem with ⟨e, he, state, _, proposed⟩ | ⟨o', _, rfl⟩
    · exact absurd ((planEntry_planned proposed).1.owns touches).1 (foreign e he)
    · cases touches; exact ⟨_, rfl⟩
  · intro e he state o ending needs object found foreign
    obtain ⟨a, proposed, one⟩ := plan_one observed unique he ending needs
    have planned := planEntry_planned proposed
    have none_else : a = .refuse e.ref (notOurs e) := by
      cases planned.1 with
      | remove _ found' ours | adopt _ _ found' ours =>
        have same := Option.some.inj (found.symm.trans found')
        exact absurd (owns_of_found found' ours) (same ▸ foreign)
      | releaseLease lease => exact absurd lease object
      | refuse _ _ => rfl
      | markAbsent absent => rw [found] at absent; cases absent
    exact none_else ▸ one
  · intro e he state ending released refused clean
    have needs := needsDecision_iff.mpr ⟨released, refused, .inl clean⟩
    obtain ⟨a, _, one⟩ := plan_one observed unique he ending needs
    exact ⟨a, one⟩

end

end Harpoon.Deploy
