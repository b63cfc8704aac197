import Harpoon.Journal.Frame
import Harpoon.Laws.Sources

/-!
# What every sequence of Git records keeps

Registrations, edits, removals and registrations again, in whatever order they are accepted: an application has
one live repository, and once it was removed it belongs to that name. A record that is refused changes nothing.
-/

namespace Harpoon.Git

open Deploy Journal

variable {s s' : GitState} {rs past : List GitRecord} {r : GitRecord} {x : RepoRec} {y : RemovedRec} {z : SeenRec}
  {app : ApplicationId}

/-! ## The removals of a sequence -/

def GitRecord.removal? : GitRecord → Option RemovedRec
  | .removed y => some y
  | _ => none

/-- The removals of a sequence, in order. -/
def removals (rs : List GitRecord) : List RemovedRec := rs.filterMap GitRecord.removal?

theorem removals_append : removals (past ++ rs) = removals past ++ removals rs := List.filterMap_append

namespace GitState

/-! ## Changing the state in place -/

/-- What is answered, and the state after it. -/
def answer (s : GitState) : Except String GitState → Except String Unit × GitState
  | .ok s' => (.ok (), s')
  | .error e => (.error e, s)

theorem get_bind {α : Type} (s : GitState) (f : GitState → ExceptT String (StateM GitState) α) :
    (get >>= f : ExceptT String (StateM GitState) α).run.run s = (f s).run.run s := rfl

/-- Every check stands before the first change. -/
theorem applyInPlace_run (s : GitState) (r : GitRecord) : (applyInPlace r).run.run s = s.answer (s.apply r) := by
  cases r with
  | repo x =>
    unfold apply applyRepo applyInPlace
    dsimp only
    rw [get_bind]
    cases s.repos.rows.find? fun o => o.name ≠ x.name ∧ o.app = x.app with
    | some other => rfl
    | none =>
      dsimp only
      rw [get_bind]
      cases s.retiredOwner x.app with
      | none => rfl
      | some owner =>
        by_cases other : owner ≠ x.name
        · simp only [if_pos other, Option.filter, decide_eq_true other]
          rfl
        · simp only [if_neg other, Option.filter, decide_eq_false other]
          rfl
  | seen z =>
    unfold apply applySeen applyInPlace
    dsimp only
    rw [get_bind]
    split <;> rfl
  | source x =>
    unfold apply applySource applyInPlace
    dsimp only
    rw [get_bind]
    split
    · rfl
    · rw [get_bind]
      split <;> rfl
  | removed y =>
    unfold apply applyRemoved applyInPlace
    dsimp only
    rw [get_bind]
    cases s.repos.find y.name with
    | none => rfl
    | some live =>
      by_cases app : live.app ≠ y.app
      · simp only [if_pos app]
        rfl
      · simp only [if_neg app]
        by_cases version : live.atMs ≠ y.registration
        · simp only [if_pos version]
          rfl
        · simp only [if_neg version]
          by_cases source : live.url ≠ y.url ∨ live.cred ≠ y.cred
          · simp only [if_pos source]
            rfl
          · simp only [if_neg source]
            rfl

/-! ## What an accepted record had to show -/

theorem applyRepo_owner {owner : String} (applied : s.applyRepo x = .ok s') (retired : s.retiredOwner x.app = some owner) :
    owner = x.name := by
  unfold applyRepo at applied
  split at applied
  next => cases applied
  next =>
    split at applied
    next => cases applied
    next none =>
      rw [retired] at none
      simpa [Option.filter] using none

theorem applySeen_registered (applied : s.applySeen z = .ok s') : (s.repos.find z.repo).isSome := by
  unfold applySeen at applied
  split at applied
  · cases applied
  next registered => simpa [Option.isSome_iff_ne_none] using registered

theorem applySource_fresh {z : SourceRec} (applied : s.applySource z = .ok s') :
    ∀ o ∈ s.sources, o.deployment ≠ z.deployment := by
  unfold applySource at applied
  split at applied
  · cases applied
  next fresh => exact fun o mem same => fresh (List.any_eq_true.mpr ⟨o, mem, decide_eq_true same⟩)

/-- The owner of a removed application is the name that any of its removals gives, if they agree. -/
theorem retiredOwner_of_mem (mem : y ∈ s.retired) : ∃ o ∈ s.retired, o.app = y.app ∧ s.retiredOwner y.app = some o.name := by
  cases found : s.retired.find? fun o => o.app = y.app with
  | none => exact absurd (decide_eq_true rfl) (List.find?_eq_none.mp found y mem)
  | some o =>
    refine ⟨o, List.mem_of_find?_eq_some found, of_decide_eq_true (List.find?_some found :), ?_⟩
    rw [retiredOwner, found]
    rfl

end GitState

/-! ## The invariant -/

/-- What holds after the records `rs`. -/
structure Kept (rs : List GitRecord) (s : GitState) : Prop where
  one : s.OneRepository
  owner : ∀ y ∈ s.retired, ∀ x ∈ s.repos.rows, x.app = y.app → x.name = y.name
  alone : ∀ y ∈ s.retired, ∀ z ∈ s.retired, y.app = z.app → y.name = z.name
  seen : ∀ z ∈ s.seen.rows, (s.repos.find z.repo).isSome
  sources : Keyed.Unique SourceRec.deployment s.sources
  retired : s.retired = removals rs

theorem Kept.new : Kept [] .new where
  one := by intro _ _ _ _ found; cases found
  owner := by intro _ mem; cases mem
  alone := by intro _ mem; cases mem
  seen := by intro _ mem; cases mem
  sources := List.nodup_nil
  retired := rfl

/-- A registration of an application that was removed is under the name it was removed from. -/
theorem Kept.claims (kept : Kept past s) (mem : y ∈ s.retired) (applied : s.applyRepo x = .ok s') (same : x.app = y.app) :
    x.name = y.name := by
  obtain ⟨o, known, app, owner⟩ := GitState.retiredOwner_of_mem mem
  rw [← same] at owner
  exact (GitState.applyRepo_owner applied owner).symm.trans (kept.alone o known y mem app)

/-- Step lemma. -/
theorem Kept.apply (kept : Kept past s) (applied : s.apply r = .ok s') : Kept (past ++ [r]) s' := by
  have one := kept.one.apply applied
  cases r with
  | repo x =>
    obtain ⟨_, rfl⟩ := GitState.applyRepo_ok applied
    refine ⟨one, ?_, kept.alone, ?_, kept.sources, ?_⟩
    · intro y mem o live same
      rcases Keyed.Table.mem_insert live with rfl | live
      · exact kept.claims mem applied same
      · exact kept.owner y mem o live same
    · intro z mem
      rw [Keyed.Table.find_insert]
      split
      · rfl
      · exact kept.seen z mem
    · rw [removals_append, kept.retired]
      exact (List.append_nil _).symm
  | seen z =>
    have registered := GitState.applySeen_registered applied
    cases GitState.applySeen_ok applied
    refine ⟨one, kept.owner, kept.alone, ?_, kept.sources, ?_⟩
    · intro o mem
      rcases Keyed.Table.mem_insert mem with rfl | mem
      · exact registered
      · exact kept.seen o mem
    · rw [removals_append, kept.retired]
      exact (List.append_nil _).symm
  | source z =>
    have fresh := GitState.applySource_fresh applied
    cases GitState.applySource_ok applied
    refine ⟨one, kept.owner, kept.alone, kept.seen, ?_, ?_⟩
    · rw [Keyed.Unique, List.map_append, List.nodup_append]
      refine ⟨kept.sources, by simp, ?_⟩
      intro d known d' mem
      obtain ⟨o, live, rfl⟩ := List.mem_map.mp known
      cases List.mem_singleton.mp mem
      exact fresh o live
    · rw [removals_append, kept.retired]
      exact (List.append_nil _).symm
  | removed y =>
    obtain ⟨⟨live, found, app⟩, rfl⟩ := GitState.applyRemoved_ok applied
    have here := Keyed.Table.mem_of_find found
    have name : live.name = y.name := Keyed.Table.key_of_find found
    have fits : ∀ z ∈ s.retired, z.app = y.app → z.name = y.name := fun z mem same =>
      (kept.owner z mem live here (app.trans same.symm)).symm.trans name
    refine ⟨one, ?_, ?_, ?_, kept.sources, ?_⟩
    · intro z mem x left same
      have was := Keyed.Table.mem_remove left
      rcases List.mem_append.mp mem with mem | mem
      · exact kept.owner z mem x was same
      · cases List.mem_singleton.mp mem
        exact kept.one _ _ _ _ (Keyed.Table.find_of_mem was) found (same.trans app.symm)
    · intro z mem z' mem' same
      rcases List.mem_append.mp mem with mem | mem <;> rcases List.mem_append.mp mem' with mem' | mem'
      · exact kept.alone z mem z' mem' same
      · cases List.mem_singleton.mp mem'
        exact fits z mem same
      · cases List.mem_singleton.mp mem
        exact (fits z' mem' same.symm).symm
      · cases List.mem_singleton.mp mem
        cases List.mem_singleton.mp mem'
        rfl
    · intro z mem
      obtain ⟨mem, other⟩ := List.mem_filter.mp mem
      have other : z.repo ≠ y.name := of_decide_eq_true other
      rw [Keyed.Table.remove, Keyed.Table.find_keep, if_pos (decide_eq_true other)]
      exact kept.seen z mem
    · rw [removals_append, kept.retired]
      rfl

/-- Run lemma. -/
theorem Kept.run (kept : Kept past s) (accepted : rs.foldlM GitState.apply s = .ok s') : Kept (past ++ rs) s' := by
  induction rs generalizing past s with
  | nil =>
    cases accepted
    rwa [List.append_nil]
  | cons r rs ih =>
    rw [List.foldlM_cons] at accepted
    obtain ⟨s₁, applied, accepted⟩ := bind_ok accepted
    rw [List.append_cons]
    exact ih (kept.apply applied) accepted

theorem retired_apply (applied : s.apply r = .ok s') (mem : y ∈ s.retired) : y ∈ s'.retired := by
  cases r with
  | repo x => obtain ⟨_, rfl⟩ := GitState.applyRepo_ok applied; exact mem
  | seen z => cases GitState.applySeen_ok applied; exact mem
  | source z => cases GitState.applySource_ok applied; exact mem
  | removed z => obtain ⟨_, rfl⟩ := GitState.applyRemoved_ok applied; exact List.mem_append_left _ mem

/-- What is registered after a removal. -/
theorem Kept.claimed (kept : Kept past s) (mem : y ∈ s.retired) (accepted : rs.foldlM GitState.apply s = .ok s') :
    ∀ x, .repo x ∈ rs → x.app = y.app → x.name = y.name := by
  induction rs generalizing past s with
  | nil => intro _ mem; cases mem
  | cons r rs ih =>
    rw [List.foldlM_cons] at accepted
    obtain ⟨s₁, applied, accepted⟩ := bind_ok accepted
    intro x later same
    rcases List.mem_cons.mp later with rfl | later
    · exact kept.claims mem applied same
    · exact ih (kept.apply applied) (retired_apply applied mem) accepted x later same

/-! ## The registry -/

/-- What an accepted sequence of records, and the state that it leaves, always satisfy. -/
structure Consistent (rs : List GitRecord) (s : GitState) : Prop where
  /-- An application has one live repository. -/
  one : ∀ a ∈ s.repos.rows, ∀ b ∈ s.repos.rows, a.app = b.app → a = b
  /-- Whatever is registered after a removal of the application has the name that was removed. -/
  claimed : ∀ before y after, rs = before ++ .removed y :: after →
    ∀ x, .repo x ∈ after → x.app = y.app → x.name = y.name
  /-- And so has whatever would be accepted next. -/
  claims : ∀ y ∈ s.retired, ∀ x, (s.apply (.repo x)).isOk = true → x.app = y.app → x.name = y.name
  /-- Commits are on record for the branches of live repositories only. -/
  seen : ∀ z ∈ s.seen.rows, ∃ x ∈ s.repos.rows, x.name = z.repo
  sources : ∀ a ∈ s.sources, ∀ b ∈ s.sources, a.deployment = b.deployment → a = b
  /-- The incarnation of an application counts its removals, -/
  incarnation : ∀ app, s.incarnation app = ((removals rs).filter fun y => y.app = app).length
  /-- which are all under the name that it has when it is live. -/
  named : ∀ x ∈ s.repos.rows, ∀ y ∈ removals rs, y.app = x.app → y.name = x.name
  /-- A refused record is answered with its error, and leaves the state. -/
  refused : ∀ r e, s.apply r = .error e → (GitState.applyInPlace r).run.run s = (.error e, s)

theorem registry_consistent (accepted : GitState.replay rs = .ok s) : Consistent rs s := by
  have kept := Kept.new.run accepted
  rw [List.nil_append] at kept
  refine ⟨?_, ?_, ?_, ?_, ?_, ?_, ?_, ?_⟩
  · intro a hereA b hereB same
    exact s.repos.unique.eq_of_key hereA hereB
      (kept.one _ _ _ _ (Keyed.Table.find_of_mem hereA) (Keyed.Table.find_of_mem hereB) same)
  · intro before y after split
    rw [split, GitState.replay, List.foldlM_append] at accepted
    obtain ⟨s₁, first, accepted⟩ := bind_ok accepted
    rw [List.foldlM_cons] at accepted
    obtain ⟨s₂, applied, accepted⟩ := bind_ok accepted
    have gone : y ∈ s₂.retired := by
      obtain ⟨_, rfl⟩ := GitState.applyRemoved_ok applied
      exact List.mem_append_right _ (List.mem_singleton_self y)
    exact ((Kept.new.run first).apply applied).claimed gone accepted
  · intro y mem x ok same
    cases applied : s.apply (.repo x) with
    | error e => rw [applied] at ok; cases ok
    | ok s' => exact kept.claims mem applied same
  · intro z mem
    obtain ⟨x, found⟩ := Option.isSome_iff_exists.mp (kept.seen z mem)
    exact ⟨x, Keyed.Table.mem_of_find found, Keyed.Table.key_of_find found⟩
  · exact fun a hereA b hereB same => kept.sources.eq_of_key hereA hereB same
  · exact fun app => by rw [GitState.incarnation, kept.retired]
  · exact fun x live y mem same => (kept.owner y (kept.retired ▸ mem) x live same.symm).symm
  · intro r e refused
    rw [GitState.applyInPlace_run, refused]
    rfl

/-! Repository `n` is registered, removed, and registered again for another application. -/

namespace Renewed

def repo (app : ApplicationId) (atMs : Nat) : RepoRec :=
  { name := "n", url := "https://a/x", username := none, cred := .none, knownHost := none, webhook := none, app := app
    project := none, environment := none, branch := "main", filters := [], containerPort := 80, dockerfile := none
    context := none, target := none, healthPath := none, atMs := atMs }

def removal (app : ApplicationId) (registration : Nat) : RemovedRec :=
  ⟨"n", app, registration, "https://a/x", .none, registration + 1⟩

def records (again : ApplicationId) : List GitRecord :=
  [.repo (repo ⟨1⟩ 5), .seen ⟨"n", "refs/heads/main", "c", 5⟩, .removed (removal ⟨1⟩ 5), .repo (repo again 7)]

theorem accepted (again : ApplicationId) (possible : again = ⟨1⟩ ∨ again = ⟨2⟩) :
    ∃ s, GitState.replay (records again) = .ok s ∧ s.repos.rows = [repo again 7] ∧
      s.retired = [removal ⟨1⟩ 5] := by
  rcases possible with rfl | rfl <;> exact ⟨_, rfl, by decide, by decide⟩

end Renewed

theorem registry_consistent_renewed : ∃ s, Consistent (Renewed.records ⟨1⟩) s := by
  obtain ⟨s, accepted, _⟩ := Renewed.accepted ⟨1⟩ (.inl rfl)
  exact ⟨s, registry_consistent accepted⟩

/-- The name was removed once; the application that it has now was never. -/
theorem incarnation_of_name :
    ∃ rs s x, GitState.replay rs = .ok s ∧ x ∈ s.repos.rows ∧
      s.incarnation x.app ≠ ((removals rs).filter fun y => y.name = x.name).length := by
  obtain ⟨s, accepted, live, retired⟩ := Renewed.accepted ⟨2⟩ (.inr rfl)
  refine ⟨_, s, Renewed.repo ⟨2⟩ 7, accepted, live ▸ List.mem_singleton_self _, ?_⟩
  rw [GitState.incarnation, retired]
  decide

end Harpoon.Git
