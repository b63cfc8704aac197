import Harpoon.Git.State

/-!
# What a record changes of the Git sources

Whatever records are accepted, in whatever order, one application has one repository. A record that names
neither a repository nor a branch leaves the registration, the observation and the incarnation alone.
-/

namespace Harpoon.Git

open Deploy

variable {s s' : GitState} {r : GitRecord} {x : RepoRec} {y : RemovedRec} {z : SeenRec} {name ref : String}
  {app : ApplicationId}

namespace GitState

theorem applyRepo_ok (applied : s.applyRepo x = .ok s') :
    (∀ o ∈ s.repos.rows, o.app = x.app → o.name = x.name) ∧ s' = { s with repos := s.repos.insert x } := by
  unfold applyRepo at applied
  split at applied
  next => cases applied
  next free =>
    split at applied
    · cases applied
    · cases applied
      refine ⟨fun o mem same => ?_, rfl⟩
      simpa [same] using List.find?_eq_none.mp free o mem

theorem applyRemoved_ok (applied : s.applyRemoved y = .ok s') :
    (∃ live, s.repos.find y.name = some live ∧ live.app = y.app) ∧
      s' = { s with
        repos := s.repos.remove y.name
        seen := s.seen.keep fun k => k.1 ≠ y.name
        retired := s.retired ++ [y] } := by
  unfold applyRemoved at applied
  split at applied
  next => cases applied
  next live found =>
    split at applied
    · cases applied
    next same =>
      split at applied
      · cases applied
      · split at applied
        · cases applied
        · cases applied
          exact ⟨⟨live, found, Decidable.not_not.mp same⟩, rfl⟩

theorem applySeen_ok (applied : s.applySeen z = .ok s') : s' = { s with seen := s.seen.insert z } := by
  unfold applySeen at applied
  split at applied
  · cases applied
  · cases applied; rfl

theorem applySource_ok {x : SourceRec} (applied : s.applySource x = .ok s') :
    s' = { s with sources := s.sources ++ [x] } := by
  unfold applySource at applied
  split at applied
  · cases applied
  · split at applied
    · cases applied
    · cases applied; rfl

/-! ## One repository for an application -/

/-- No application is registered under two names. -/
def OneRepository (s : GitState) : Prop :=
  ∀ n m a b, s.repos.find n = some a → s.repos.find m = some b → a.app = b.app → n = m

/-- Step lemma. -/
theorem OneRepository.apply (one : OneRepository s) (applied : s.apply r = .ok s') : OneRepository s' := by
  cases r with
  | repo x =>
    obtain ⟨free, rfl⟩ := applyRepo_ok applied
    -- What is registered under another name is of another application than `x`.
    have apart : ∀ {n a}, s.repos.find n = some a → a.app = x.app → n = x.name := fun {n a} found same =>
      (Keyed.Table.key_of_find found).symm.trans (free a (Keyed.Table.mem_of_find found) same)
    intro n m a b hn hm same
    simp only [Keyed.Table.find_insert] at hn hm
    split at hn
    next here =>
      cases hn
      split at hm
      next here' => exact here.symm.trans here'
      next => exact here.symm.trans (apart hm same.symm).symm
    next =>
      split at hm
      next here =>
        cases hm
        exact (apart hn same).trans here
      next => exact one n m a b hn hm same
  | seen z => cases applySeen_ok applied; exact one
  | source x => cases applySource_ok applied; exact one
  | removed y =>
    obtain ⟨_, rfl⟩ := applyRemoved_ok applied
    intro n m a b hn hm same
    simp only [Keyed.Table.remove, Keyed.Table.find_keep] at hn hm
    split at hn
    · split at hm
      · exact one n m a b hn hm same
      · cases hm
    · cases hn

end GitState

/-! ## What a record leaves alone -/

/-- The record says nothing of the registration under the name, nor of the branch. -/
def GitRecord.Spares (name ref : String) : GitRecord → Prop
  | .repo x => x.name ≠ name
  | .removed y => y.name ≠ name
  | .seen z => z.key ≠ (name, ref)
  | .source _ => True

/-- The repository is registered as `repo`; its branch was seen at `seen`, and its application's
registration was removed so many times. -/
structure GitState.Holds (s : GitState) (repo : RepoRec) (ref : String) (seen : Option SeenRec) (incarnation : Nat) :
    Prop where
  registered : s.repos.find repo.name = some repo
  seen : s.seen.find (repo.name, ref) = seen
  incarnation : s.incarnation repo.app = incarnation

namespace GitState

variable {repo : RepoRec} {seen : Option SeenRec} {incarnation : Nat}

/-- Step lemma. -/
theorem Holds.apply (holds : s.Holds repo ref seen incarnation) (one : OneRepository s)
    (applied : s.apply r = .ok s') (spares : r.Spares repo.name ref) : s'.Holds repo ref seen incarnation := by
  cases r with
  | repo x =>
    obtain ⟨_, rfl⟩ := applyRepo_ok applied
    refine ⟨?_, holds.seen, holds.incarnation⟩
    rw [Keyed.Table.find_insert, if_neg spares]
    exact holds.registered
  | seen z =>
    cases applySeen_ok applied
    refine ⟨holds.registered, ?_, holds.incarnation⟩
    rw [Keyed.Table.find_insert, if_neg spares]
    exact holds.seen
  | source x =>
    cases applySource_ok applied
    exact ⟨holds.registered, holds.seen, holds.incarnation⟩
  | removed y =>
    obtain ⟨⟨live, found, app⟩, rfl⟩ := applyRemoved_ok applied
    have other : repo.name ≠ y.name := fun same => spares same.symm
    -- The registration that was removed is another application's.
    have foreign : y.app ≠ repo.app := fun same =>
      other (one _ _ _ _ holds.registered found (app.trans same).symm)
    refine ⟨?_, ?_, ?_⟩
    · rw [Keyed.Table.remove, Keyed.Table.find_keep, if_pos (decide_eq_true other)]
      exact holds.registered
    · rw [Keyed.Table.find_keep, if_pos (decide_eq_true other)]
      exact holds.seen
    · rw [GitState.incarnation, List.filter_append, List.filter_cons_of_neg (by simpa using foreign),
        List.filter_nil, List.append_nil]
      exact holds.incarnation

end GitState

end Harpoon.Git
