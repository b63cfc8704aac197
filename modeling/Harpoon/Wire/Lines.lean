/-!
# Files of lines

A file of lines is the lines with a separator after each. Any file is its whole lines followed by what
stands after the last separator, and a prefix of a file of lines has whole lines of it and a part of the
next one.
-/

namespace Harpoon.Wire

section

variable {α : Type}

/-- The whole lines, and what stands after the last separator. -/
def cutLines [DecidableEq α] (sep : α) : List α → List (List α) × List α
  | [] => ([], [])
  | b :: bs =>
    match cutLines sep bs with
    | (ls, rest) =>
      if b = sep then ([] :: ls, rest)
      else
        match ls with
        | [] => ([], b :: rest)
        | l :: ls => ((b :: l) :: ls, rest)

/-- The lines with a separator after each. -/
def ofLines (sep : α) (ls : List (List α)) : List α := ls.flatMap (· ++ [sep])

variable {sep : α} {l bs tail : List α} {ls ms : List (List α)} {n : Nat}

theorem ofLines_append : ofLines sep (ls ++ ms) = ofLines sep ls ++ ofLines sep ms := List.flatMap_append

theorem ofLines_cons : ofLines sep (l :: ls) = l ++ sep :: ofLines sep ls := by
  rw [ofLines, List.flatMap_cons, List.append_assoc]
  rfl

/-- A prefix of a file of lines: the lines that end in it, and a part of the next line without its
separator. -/
structure Torn (sep : α) (ls : List (List α)) (n k : Nat) (tail : List α) : Prop where
  count : k ≤ ls.length
  split : (ofLines sep ls).take n = ofLines sep (ls.take k) ++ tail
  /-- The tail is missing at least the separator of the line it begins. -/
  short : ∀ l, ls[k]? = some l → tail.length ≤ l.length
  last : ls[k]? = none → tail = []
  free : sep ∉ tail

theorem torn (free : ∀ l ∈ ls, sep ∉ l) (n : Nat) : ∃ k tail, Torn sep ls n k tail := by
  induction ls generalizing n with
  | nil =>
    refine ⟨0, [], Nat.le_refl 0, ?_, fun l none => (by cases none), fun _ => rfl, fun mem => (by cases mem)⟩
    exact List.take_nil
  | cons l ls ih =>
    have own := free l List.mem_cons_self
    by_cases whole : l.length < n
    · obtain ⟨k, tail, t⟩ := ih (fun m mem => free m (List.mem_cons_of_mem l mem)) (n - (l.length + 1))
      refine ⟨k + 1, tail, Nat.succ_le_succ t.count, ?_, t.short, t.last, t.free⟩
      have count : n = l.length + 1 + (n - (l.length + 1)) := by omega
      rw [List.take_succ_cons, ofLines_cons, ofLines_cons, List.append_assoc, List.cons_append, ← t.split, count,
        Nat.add_assoc, List.take_length_add_append, Nat.add_comm 1, List.take_succ_cons]
      congr 4
      omega
    · refine ⟨0, l.take n, Nat.zero_le _, ?_, fun m first => ?_, fun none => (by cases none),
        fun mem => own (List.mem_of_mem_take mem)⟩
      · rw [ofLines_cons, List.take_append_of_le_length (Nat.le_of_not_lt whole)]
        rfl
      · cases first
        exact List.length_take_le' n l

/-- The lines that end in the prefix are those whose separator lies in it. -/
theorem Torn.whole_iff {k i : Nat} (t : Torn sep ls n k tail) (inside : i < ls.length) :
    i < k ↔ (ofLines sep (ls.take (i + 1))).length ≤ n := by
  have sizes := congrArg List.length t.split
  rw [List.length_take, List.length_append] at sizes
  have grows : ∀ {a b : Nat}, a ≤ b → (ofLines sep (ls.take a)).length ≤ (ofLines sep (ls.take b)).length := by
    intro a b le
    obtain ⟨more, split⟩ : ls.take a <+: ls.take b := List.take_prefix_take_left le
    rw [← split, ofLines_append, List.length_append]
    exact Nat.le_add_right _ _
  constructor
  · intro whole
    have := grows (a := i + 1) whole
    omega
  · intro fits
    refine Nat.lt_of_not_le fun past => ?_
    have short := t.short _ (List.getElem?_eq_getElem (Nat.lt_of_le_of_lt past inside))
    have next : ofLines sep (ls.take (k + 1)) = ofLines sep (ls.take k) ++ (ls[k] ++ [sep]) := by
      rw [← List.take_append_getElem (Nat.lt_of_le_of_lt past inside), ofLines_append]
      simp [ofLines]
    have sizeNext := congrArg List.length next
    simp only [List.length_append, List.length_singleton] at sizeNext
    have := grows (a := k + 1) (b := i + 1) (Nat.succ_le_succ past)
    have total := grows (a := k + 1) (b := ls.length) (Nat.lt_of_le_of_lt past inside)
    rw [List.take_length] at total
    omega

variable [DecidableEq α]

theorem cutLines_tail (free : sep ∉ l) : cutLines sep l = ([], l) := by
  induction l with
  | nil => rfl
  | cons b l ih =>
    have other : b ≠ sep := fun same => free (same ▸ List.mem_cons_self)
    rw [cutLines, ih fun mem => free (List.mem_cons_of_mem b mem)]
    exact if_neg other

theorem cutLines_line (free : sep ∉ l) :
    cutLines sep (l ++ sep :: bs) = (l :: (cutLines sep bs).1, (cutLines sep bs).2) := by
  induction l with
  | nil =>
    rw [List.nil_append, cutLines]
    exact if_pos rfl
  | cons b l ih =>
    have other : b ≠ sep := fun same => free (same ▸ List.mem_cons_self)
    rw [List.cons_append, cutLines, ih fun mem => free (List.mem_cons_of_mem b mem)]
    exact if_neg other

theorem cutLines_ofLines (free : ∀ l ∈ ls, sep ∉ l) :
    cutLines sep (ofLines sep ls ++ bs) = (ls ++ (cutLines sep bs).1, (cutLines sep bs).2) := by
  induction ls with
  | nil => rfl
  | cons l ls ih =>
    rw [ofLines_cons, List.append_assoc, List.cons_append, cutLines_line (free l List.mem_cons_self),
      ih fun m mem => free m (List.mem_cons_of_mem l mem)]
    rfl

/-- Every file is made of its whole lines and what follows. -/
theorem ofLines_cutLines (sep : α) (bs : List α) : ofLines sep (cutLines sep bs).1 ++ (cutLines sep bs).2 = bs := by
  induction bs with
  | nil => rfl
  | cons b bs ih =>
    rw [cutLines]
    cases cut : cutLines sep bs with
    | mk ls rest =>
      rw [cut] at ih
      dsimp only at ih ⊢
      split
      next same => rw [ofLines_cons, same, ← ih]; rfl
      next other =>
        cases ls with
        | nil => rw [← ih]; rfl
        | cons l ls =>
          rw [← ih, ofLines_cons, ofLines_cons]
          rfl

theorem cutLines_free (sep : α) (bs : List α) : (∀ l ∈ (cutLines sep bs).1, sep ∉ l) ∧ sep ∉ (cutLines sep bs).2 := by
  induction bs with
  | nil => exact ⟨fun l mem => (by cases mem), fun mem => (by cases mem)⟩
  | cons b bs ih =>
    rw [cutLines]
    cases cut : cutLines sep bs with
    | mk ls rest =>
      rw [cut] at ih
      obtain ⟨lines, last⟩ := ih
      dsimp only at lines last ⊢
      split
      next => exact ⟨List.forall_mem_cons.mpr ⟨fun mem => (by cases mem), lines⟩, last⟩
      next other =>
        have fresh : ∀ {m : List α}, sep ∉ m → sep ∉ b :: m := by
          intro m free mem
          rcases List.mem_cons.mp mem with same | mem
          · exact other same.symm
          · exact free mem
        cases ls with
        | nil => exact ⟨fun l mem => (by cases mem), fresh last⟩
        | cons l ls =>
          obtain ⟨first, lines⟩ := List.forall_mem_cons.mp lines
          exact ⟨List.forall_mem_cons.mpr ⟨fresh first, lines⟩, last⟩

end

end Harpoon.Wire
