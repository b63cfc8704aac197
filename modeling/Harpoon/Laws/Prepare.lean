import Harpoon.Laws.ConfigCodec
import Harpoon.Laws.ReleaseCodec

/-!
# Resolved configurations

Whatever the definitions and the command line say, a resolved configuration has each name once, in the order
of the names, and every entry of it is a definition or a value of the command line.
-/

namespace Harpoon.Config

open Deploy

/-! ## Where an entry comes from -/

/-- The entry is what a definition sets. -/
def Entry.Defined (s : ConfigState) (e : Entry) : Prop :=
  ∃ d ∈ s.defs, ∃ flags value, d.setting = .set flags value ∧ e = ⟨d.name, flags, some d.scope, value⟩

/-- The entry is a value of the command line. -/
def Entry.Given (e : Entry) : Prop :=
  (e.flags = ⟨false, true⟩ ∨ e.flags = ⟨true, false⟩) ∧ e.source = none ∧ ∃ v, e.value = .config v

section

variable {s : ConfigState} {e : Entry} {d : Def} {scope : Scope} {out : Keyed.Table Entry.name}
  {entries : List Entry} {pairs : List (String × String)} {flags : Flags}

theorem mem_current (mem : d ∈ s.current.rows) : d ∈ s.defs := by
  have fold : ∀ (defs : List Def) (m : Keyed.Table fun d : Def => (d.scope, d.name)),
      d ∈ (defs.foldl (fun m d => m.insert d) m).rows → d ∈ m.rows ∨ d ∈ defs := by
    intro defs
    induction defs with
    | nil => exact fun m mem => .inl mem
    | cons first rest ih =>
      intro m mem
      rcases ih _ mem with mem | mem
      · rcases Keyed.Table.mem_insert mem with rfl | mem
        · exact .inr List.mem_cons_self
        · exact .inl mem
      · exact .inr (List.mem_cons_of_mem first mem)
  rcases fold s.defs .empty mem with mem | mem
  · cases mem
  · exact mem

theorem defined_settle (known : d ∈ s.defs) (own : d.scope = scope) (before : ∀ e ∈ out.rows, e.Defined s) :
    ∀ e ∈ (ConfigState.settle scope out d).rows, e.Defined s := by
  intro e mem
  unfold ConfigState.settle at mem
  split at mem
  · exact before e (Keyed.Table.mem_remove mem)
  next flags value set =>
    rcases Keyed.Table.mem_insert mem with rfl | mem
    · exact ⟨d, known, flags, value, set, by rw [own]⟩
    · exact before e mem

theorem defined_settleScope (before : ∀ e ∈ out.rows, e.Defined s) :
    ∀ e ∈ (s.settleScope out scope).rows, e.Defined s := by
  have fold : ∀ (ds : List Def) (out : Keyed.Table Entry.name), (∀ d ∈ ds, d ∈ s.defs ∧ d.scope = scope) →
      (∀ e ∈ out.rows, e.Defined s) → ∀ e ∈ (ds.foldl (ConfigState.settle scope) out).rows, e.Defined s := by
    intro ds
    induction ds with
    | nil => exact fun out _ before => before
    | cons d rest ih =>
      intro out known before
      obtain ⟨mem, own⟩ := known d List.mem_cons_self
      exact ih _ (fun d mem => known d (List.mem_cons_of_mem _ mem)) (defined_settle mem own before)
  refine fold _ out (fun d mem => ?_) before
  obtain ⟨mem, own⟩ := List.mem_filter.mp mem
  exact ⟨mem_current mem, by simpa using own⟩

/-- Every entry of the effective configuration is what a definition sets. -/
theorem defined_effective {project env : Option String} {app : ApplicationId} :
    ∀ e ∈ (s.effective project app env).rows, e.Defined s := by
  have fold : ∀ (scopes : List Scope) (out : Keyed.Table Entry.name), (∀ e ∈ out.rows, e.Defined s) →
      ∀ e ∈ (scopes.foldl s.settleScope out).rows, e.Defined s := by
    intro scopes
    induction scopes with
    | nil => exact fun out before => before
    | cons scope rest ih => exact fun out before => ih _ (defined_settleScope before)
  exact fold _ .empty fun e mem => by cases mem

/-! ## Order -/

/-- Each name once, in the order of the names. -/
def Ordered (entries : List Entry) : Prop := entries.Pairwise fun a b => a.name < b.name

theorem mem_byName : e ∈ byName entries ↔ e ∈ entries := List.mem_mergeSort

theorem ordered_byName (unique : (entries.map Entry.name).Nodup) : Ordered (byName entries) := by
  have sorted : (byName entries).Pairwise fun a b => (!decide (b.name < a.name)) = true := by
    refine List.pairwise_mergeSort (fun a b c first second => ?_) (fun a b => ?_) entries
    · simp only [Bool.not_eq_true', decide_eq_false_iff_not, String.not_lt] at first second ⊢
      exact String.le_trans first second
    · rcases String.le_total a.name b.name with le | le
      · simp [String.not_lt.mpr le]
      · simp [String.not_lt.mpr le]
  have distinct : (byName entries).Pairwise fun a b => a.name ≠ b.name := by
    have names : ((byName entries).map Entry.name).Nodup :=
      ((List.mergeSort_perm entries _).map Entry.name).nodup_iff.mpr unique
    exact List.pairwise_map.mp names
  refine List.Pairwise.imp₂ (fun a b before other => ?_) sorted distinct
  have le : a.name ≤ b.name := String.not_lt.mp (by simpa using before)
  exact String.not_le.mp fun ge => other (String.le_antisymm le ge)

theorem Ordered.unique (ordered : Ordered entries) : (entries.map Entry.name).Nodup := by
  refine List.pairwise_map.mpr (ordered.imp fun {a b} before same => ?_)
  rw [same] at before
  exact String.lt_irrefl _ before

/-- The values of the command line come on top, each name once. -/
theorem unique_command (unique : (entries.map Entry.name).Nodup) :
    ((pairs.foldl (fun entries p => entries.filter (·.name ≠ p.1) ++ [⟨p.1, flags, none, .config p.2⟩])
      entries).map Entry.name).Nodup := by
  induction pairs generalizing entries with
  | nil => exact unique
  | cons p rest ih =>
    refine ih ?_
    rw [List.map_append, List.map_singleton]
    refine List.nodup_append.mpr ⟨unique.sublist (List.filter_sublist.map Entry.name), ?_, fun a mem b last => ?_⟩
    · exact List.pairwise_singleton _ _
    · obtain ⟨e, inside, rfl⟩ := List.mem_map.mp mem
      rw [List.mem_singleton.mp last]
      simpa using (List.mem_filter.mp inside).2

theorem ordered_withCommand (unique : (entries.map Entry.name).Nodup) : Ordered (withCommand entries pairs flags) :=
  ordered_byName (unique_command unique)

theorem mem_withCommand (mem : e ∈ withCommand entries pairs flags) :
    e ∈ entries ∨ e.flags = flags ∧ e.source = none ∧ ∃ v, e.value = .config v := by
  have fold : ∀ (pairs : List (String × String)) (entries : List Entry),
      e ∈ pairs.foldl (fun entries p => entries.filter (·.name ≠ p.1) ++ [⟨p.1, flags, none, .config p.2⟩]) entries →
        e ∈ entries ∨ e.flags = flags ∧ e.source = none ∧ ∃ v, e.value = .config v := by
    intro pairs
    induction pairs with
    | nil => exact fun entries mem => .inl mem
    | cons p rest ih =>
      intro entries mem
      rcases ih _ mem with mem | given
      · rcases List.mem_append.mp mem with mem | mem
        · exact .inl (List.mem_filter.mp mem).1
        · rw [List.mem_singleton.mp mem]
          exact .inr ⟨rfl, rfl, p.2, rfl⟩
      · exact .inr given
  exact fold pairs entries (mem_byName.mp mem)

/-! ## What the preflight accepts -/

theorem forM_checkEntry (accepted : validateEntries entries = .ok ()) : ∀ e ∈ entries, checkEntry e = .ok () := by
  unfold validateEntries at accepted
  split at accepted
  · cases accepted
  · obtain ⟨_, all, _⟩ := Journal.bind_ok accepted
    exact forM_mem all

theorem checkEntry_iff : checkEntry e = .ok () ↔ checkName e.name = .ok () ∧ checkText e.name e.value = .ok () := by
  unfold checkEntry
  constructor
  · intro accepted
    obtain ⟨_, name, text⟩ := Journal.bind_ok accepted
    refine ⟨name, ?_⟩
    cases value : e.value with
    | config v => rwa [value] at text
    | secret r => rfl
  · rintro ⟨name, text⟩
    simp only [name, bind, Except.bind]
    cases value : e.value with
    | config v => rwa [value] at text
    | secret r => rfl

/-- What is known of the entries of a deployment. -/
structure Sound (s : ConfigState) (entries : List Entry) : Prop where
  ordered : Ordered entries
  name : ∀ e ∈ entries, checkName e.name = .ok ()
  text : ∀ e ∈ entries, checkText e.name e.value = .ok ()
  origin : ∀ e ∈ entries, e.Given ∨ e.Defined s

variable {r : Request} {p : Prepared} {args : List (String × String)}

theorem sound_resolved (accepted : resolved r s args = .ok entries) : Sound s entries := by
  obtain ⟨first, found, accepted⟩ := Journal.bind_ok accepted
  obtain ⟨_, valid, accepted⟩ := Journal.bind_ok accepted
  cases accepted
  obtain ⟨_, _, same⟩ := Journal.bind_ok found
  cases same
  have unique := (ordered_byName (s.effective r.project r.app r.environment).unique).unique
  have checked := forM_checkEntry valid
  refine ⟨ordered_withCommand (ordered_withCommand unique).unique, fun e mem => (checkEntry_iff.mp (checked e mem)).1,
    fun e mem => (checkEntry_iff.mp (checked e mem)).2, fun e mem => ?_⟩
  rcases mem_withCommand mem with mem | ⟨flags, rest⟩
  · rcases mem_withCommand mem with mem | ⟨flags, rest⟩
    · exact .inr (defined_effective e (mem_byName.mp mem))
    · exact .inl ⟨.inl flags, rest⟩
  · exact .inl ⟨.inr flags, rest⟩

/-- What the preflight prepared. -/
theorem prepare_entries (accepted : prepare r s = .ok p) :
    Sound s p.entries ∧ p.project = r.project ∧ p.environment = r.environment ∧
      p.runtimeEnv = runtimeEnv p.entries ∧ p.runtimeSecrets = runtimeSecrets p.entries ∧
      ∃ rest, p.buildIdentity = "dockerfile=" ++ rest := by
  obtain ⟨args, _, accepted⟩ := Journal.bind_ok accepted
  obtain ⟨_, _, accepted⟩ := Journal.bind_ok accepted
  obtain ⟨entries, found, accepted⟩ := Journal.bind_ok accepted
  cases accepted
  exact ⟨sound_resolved found, rfl, rfl, rfl, rfl, _, by simp only [identity, String.append_assoc]; rfl⟩

/-! ## Sets of variables -/

section

variable {pairs : List (String × String)} {seen : List String}

/-- Names in order are each given once. -/
theorem checkPairs_ok (checked : ∀ p ∈ pairs, Envvars.checkName p.1 = .ok () ∧ Envvars.checkValue p.1 p.2 = .ok ())
    (sorted : pairs.Pairwise fun a b => a.1 < b.1) (fresh : ∀ p ∈ pairs, p.1 ∉ seen) :
    Envvars.checkPairs seen pairs = .ok () := by
  induction pairs generalizing seen with
  | nil => rfl
  | cons first rest ih =>
    obtain ⟨name, value⟩ := checked first List.mem_cons_self
    obtain ⟨least, sorted⟩ := List.pairwise_cons.mp sorted
    have new : seen.contains first.1 = false := by simpa using fresh first List.mem_cons_self
    have others : ∀ p ∈ rest, p.1 ∉ first.1 :: seen := by
      intro p mem before
      rcases List.mem_cons.mp before with same | before
      · have less := least p mem
        rw [same] at less
        exact String.lt_irrefl _ less
      · exact fresh p (List.mem_cons_of_mem first mem) before
    have rest := ih (fun p mem => checked p (List.mem_cons_of_mem first mem)) sorted others
    simp only [Envvars.checkPairs, name, value, new, bind, Except.bind, Bool.false_eq_true, if_false]
    exact rest

theorem mergeSort_pairs (sorted : pairs.Pairwise fun a b => a.1 < b.1) :
    pairs.mergeSort Envvars.pairLe = pairs :=
  List.mergeSort_of_pairwise (sorted.imp fun {a b} less => by simp [Envvars.pairLe, less])

/-- Valid variables in order are accepted as a set when the set is not too large, and only then. -/
theorem validate_iff (checked : ∀ p ∈ pairs, Envvars.checkName p.1 = .ok () ∧ Envvars.checkValue p.1 p.2 = .ok ())
    (sorted : pairs.Pairwise fun a b => a.1 < b.1) :
    Envvars.validate pairs = .ok pairs ↔
      pairs.length ≤ Envvars.maxVariables ∧ Envvars.totalBytes pairs ≤ Envvars.maxTotalBytes := by
  have each : Envvars.checkPairs [] pairs = .ok () := checkPairs_ok checked sorted fun p _ => List.not_mem_nil
  unfold Envvars.validate
  simp only [each, bind, Except.bind, mergeSort_pairs sorted]
  constructor
  · intro accepted
    split at accepted
    · cases accepted
    next few =>
      split at accepted
      · cases accepted
      next small => exact ⟨Nat.le_of_not_lt few, Nat.le_of_not_lt small⟩
  · rintro ⟨few, small⟩
    rw [if_neg (Nat.not_lt.mpr few), if_neg (Nat.not_lt.mpr small)]

/-- What the backend pins is what it was given. -/
theorem cfgEnvPairs_dockerForm (names : ∀ p ∈ pairs, Wire.Free '=' p.1)
    (sorted : pairs.Pairwise fun a b => a.1 < b.1) :
    Prepared.cfgEnvPairs (Envvars.dockerForm pairs) = pairs := by
  have back : (Envvars.dockerForm pairs).map (fun e => (Wire.splitOnce '=' e).getD (e, "")) = pairs := by
    rw [Envvars.dockerForm, List.map_map]
    refine (List.map_congr_left fun p mem => ?_).trans (List.map_id pairs)
    simp only [Function.comp, Wire.splitOnce_append (names p mem), Option.getD_some, id]
  rw [Prepared.cfgEnvPairs, back, mergeSort_pairs sorted]

end

/-! ## Variables and secrets of the container -/

variable {keep : Flags → Bool}

theorem mem_pickConfig {q : String × String} (mem : q ∈ pickConfig entries keep) :
    ∃ e ∈ entries, e.name = q.1 ∧ e.value = .config q.2 := by
  obtain ⟨e, inside, made⟩ := List.mem_filterMap.mp mem
  refine ⟨e, (List.mem_filter.mp inside).1, ?_⟩
  split at made
  next v value =>
    cases made
    exact ⟨rfl, value⟩
  next => cases made

theorem mem_pickSecret {q : String × SecretRef} (mem : q ∈ pickSecret entries keep) :
    ∃ e ∈ entries, e.name = q.1 ∧ e.value = .secret q.2 := by
  obtain ⟨e, inside, made⟩ := List.mem_filterMap.mp mem
  refine ⟨e, (List.mem_filter.mp inside).1, ?_⟩
  split at made
  next v value =>
    cases made
    exact ⟨rfl, value⟩
  next => cases made

/-- What is picked of each entry under its name is in the order of the names. -/
theorem ordered_pick {α : Type} {make : Entry → Option (String × α)}
    (named : ∀ e q, make e = some q → q.1 = e.name) (ordered : Ordered entries) :
    ((entries.filter fun e => keep e.flags).filterMap make).Pairwise fun a b => a.1 < b.1 := by
  refine List.pairwise_filterMap.mpr ?_
  refine (ordered.sublist List.filter_sublist).imp fun {a b} less q first q' second => ?_
  rw [named a q first, named b q' second]
  exact less

theorem ordered_pickConfig (ordered : Ordered entries) : (pickConfig entries keep).Pairwise fun a b => a.1 < b.1 := by
  refine ordered_pick (fun e q made => ?_) ordered
  split at made
  · cases made
    rfl
  · cases made

theorem ordered_pickSecret (ordered : Ordered entries) : (pickSecret entries keep).Pairwise fun a b => a.1 < b.1 := by
  refine ordered_pick (fun e q made => ?_) ordered
  split at made
  · cases made
    rfl
  · cases made

theorem increasing_names {α : Type} {l : List (String × α)} (sorted : l.Pairwise fun a b => a.1 < b.1) :
    ReleaseConfig.increasing (l.map (·.1)) = true := by
  induction l with
  | nil => rfl
  | cons first rest ih =>
    obtain ⟨least, sorted⟩ := List.pairwise_cons.mp sorted
    cases rest with
    | nil => rfl
    | cons second rest =>
      have less := least second List.mem_cons_self
      simp only [List.map_cons, ReleaseConfig.increasing, less, decide_true, Bool.true_and]
      exact ih sorted

/-- Two entries of one name are one entry. -/
theorem Ordered.eq_of_name {a b : Entry} (ordered : Ordered entries) (first : a ∈ entries) (second : b ∈ entries)
    (same : a.name = b.name) : a = b := by
  have unique : Keyed.Unique Entry.name entries := ordered.unique
  exact unique.eq_of_key first second same

/-- No name is picked both as a value and as a secret. -/
theorem apart_pick (ordered : Ordered entries) :
    ((pickSecret entries keep).any fun s => (pickConfig entries keep).any fun p => p.1 = s.1) = false := by
  refine List.any_eq_false.mpr fun q secret both => ?_
  obtain ⟨p, config, same⟩ := List.any_eq_true.mp both
  obtain ⟨a, first, named, value⟩ := mem_pickSecret secret
  obtain ⟨b, second, named', value'⟩ := mem_pickConfig config
  have one := ordered.eq_of_name first second (named.trans ((of_decide_eq_true same).symm.trans named'.symm))
  rw [one, value'] at value
  cases value

end

end Harpoon.Config
