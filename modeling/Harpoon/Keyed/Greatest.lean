import Harpoon.Keyed.Rows

/-!
# The greatest of a list

The element of a list that comes after all others, as a loop finds it: it keeps the best so far, and gives it up
only for one that comes after it. For a strict weak order, nothing in the list comes after what is found; among
elements of which neither comes after the other, the first is kept.
-/

namespace Harpoon.Keyed

variable {α : Type} (after : α → α → Bool)

/-- Keep the best so far, or give it up for one that comes after it. -/
def later (best : Option α) (c : α) : Option α := if best.all (after c) then some c else best

def greatest (cs : List α) : Option α := cs.foldl (later after) none

variable {after} {cs : List α} {best : Option α} {c m : α}

theorem foldl_later_some {b : α} : ∃ m, cs.foldl (later after) (some b) = some m := by
  induction cs generalizing b with
  | nil => exact ⟨b, rfl⟩
  | cons c cs ih =>
    rw [List.foldl_cons, later]
    split
    · exact ih
    · exact ih

theorem greatest_some (mem : c ∈ cs) : ∃ m, greatest after cs = some m := by
  cases cs with
  | nil => cases mem
  | cons c cs => exact foldl_later_some

theorem foldl_later_mem (found : cs.foldl (later after) best = some m) : m ∈ cs ∨ best = some m := by
  induction cs generalizing best with
  | nil => exact .inr found
  | cons c cs ih =>
    rcases ih found with mem | kept
    · exact .inl (List.mem_cons_of_mem _ mem)
    · unfold later at kept
      split at kept
      · cases kept
        exact .inl List.mem_cons_self
      · exact .inr kept

theorem greatest_mem (found : greatest after cs = some m) : m ∈ cs := by
  rcases foldl_later_mem found with mem | none
  · exact mem
  · cases none

section

variable (trans : ∀ a b c : α, after a b = true → after b c = true → after a c = true)
  (between : ∀ a b c : α, after a c = true → after a b = true ∨ after b c = true) (irrefl : ∀ a : α, after a a = false)

include trans between irrefl

theorem not_after_foldl (found : cs.foldl (later after) best = some m) :
    (∀ x ∈ cs, after x m = false) ∧ ∀ b, best = some b → after b m = false := by
  induction cs generalizing best with
  | nil =>
    refine ⟨fun _ mem => (by cases mem), fun b same => ?_⟩
    obtain rfl : b = m := Option.some.inj (same.symm.trans found)
    exact irrefl b
  | cons c cs ih =>
    obtain ⟨rest, kept⟩ := ih found
    unfold later at kept
    split at kept
    next first =>
      have given := kept c rfl
      refine ⟨List.forall_mem_cons.mpr ⟨given, rest⟩, fun b same => Bool.eq_false_iff.mpr fun above => ?_⟩
      rw [same] at first
      rw [trans c b m first above] at given
      cases given
    next second =>
      refine ⟨List.forall_mem_cons.mpr ⟨Bool.eq_false_iff.mpr fun above => second ?_, rest⟩, kept⟩
      cases best with
      | none => rfl
      | some b =>
        rcases between c b m above with first | last
        · exact first
        · rw [kept b rfl] at last
          cases last

/-- Nothing comes after what is found. -/
theorem not_after_greatest (found : greatest after cs = some m) : ∀ x ∈ cs, after x m = false :=
  (not_after_foldl trans between irrefl found).1

/-- What is found is of a kind exactly when one of the kind comes after all others. -/
theorem greatest_of_kind {p : α → Prop} [DecidablePred p]
    (decided : ∀ a b, p a → ¬ p b → after a b = true ∨ after b a = true) :
    (∃ m, greatest after cs = some m ∧ p m) ↔ ∃ c ∈ cs, p c ∧ ∀ x ∈ cs, ¬ p x → after c x = true := by
  constructor
  · rintro ⟨m, found, kind⟩
    refine ⟨m, greatest_mem found, kind, fun x mem other => ?_⟩
    rcases decided m x kind other with first | last
    · exact first
    · rw [not_after_greatest trans between irrefl found x mem] at last
      cases last
  · rintro ⟨c, mem, kind, first⟩
    obtain ⟨m, found⟩ : ∃ m, greatest after cs = some m := greatest_some mem
    refine ⟨m, found, Decidable.byContradiction fun other => ?_⟩
    have above := first m (greatest_mem found) other
    rw [not_after_greatest trans between irrefl found c mem] at above
    cases above

end

end Harpoon.Keyed
