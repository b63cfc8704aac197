/-!
# Rows with a key

A table kept as a list of rows, in the order they were added. A row is found by its key, and changed
in place; both act on the first row that has the key. When no two rows have the same key, a row and
its key determine each other, and changing one row leaves every other as it was.
-/

namespace Harpoon.Keyed

variable {α κ : Type} [DecidableEq κ] (key : α → κ)

/-- The first row with key `k`. -/
def lookup (k : κ) (rows : List α) : Option α := rows.find? fun x => key x = k

/-- Change the first row with key `k`. -/
def modify (k : κ) (f : α → α) : List α → List α
  | [] => []
  | x :: rows => if key x = k then f x :: rows else x :: modify k f rows

/-- No two rows have the same key. -/
def Unique (rows : List α) : Prop := (rows.map key).Nodup

variable {key} {k : κ} {f : α → α} {rows : List α} {x y : α}

theorem lookup_mem (h : lookup key k rows = some x) : x ∈ rows := List.mem_of_find?_eq_some h

theorem lookup_key (h : lookup key k rows = some x) : key x = k := by
  have found := List.find?_some h
  exact of_decide_eq_true found

theorem lookup_none_iff : lookup key k rows = none ↔ ∀ x ∈ rows, key x ≠ k := by
  simp [lookup]

@[simp] theorem lookup_cons :
    lookup key k (x :: rows) = if key x = k then some x else lookup key k rows := by
  simp only [lookup, List.find?_cons]
  by_cases h : key x = k <;> simp [h]

/-- Among rows with different keys, a row is what its key finds. -/
theorem Unique.lookup_of_mem (unique : Unique key rows) (mem : x ∈ rows) :
    lookup key (key x) rows = some x := by
  induction rows with
  | nil => cases mem
  | cons y rows ih =>
    obtain ⟨fresh, rest⟩ := List.nodup_cons.mp unique
    rw [lookup_cons]
    rcases List.mem_cons.mp mem with rfl | mem
    · exact if_pos rfl
    · have other : key y ≠ key x := fun same => fresh (same ▸ List.mem_map_of_mem mem)
      rw [if_neg other]
      exact ih rest mem

omit [DecidableEq κ] in
theorem Unique.nodup (unique : Unique key rows) : rows.Nodup :=
  List.Pairwise.of_map key (fun _ _ other same => other (congrArg key same)) unique

/-- Two rows with one key are one row. -/
theorem Unique.eq_of_key (unique : Unique key rows) (hx : x ∈ rows) (hy : y ∈ rows)
    (same : key x = key y) : x = y :=
  Option.some.inj ((unique.lookup_of_mem hx).symm.trans (same ▸ unique.lookup_of_mem hy))

/-- What a change keeps of every row is what it was. -/
theorem map_modify {γ : Type} {g : α → γ} (keeps : ∀ x ∈ rows, g (f x) = g x) :
    (modify key k f rows).map g = rows.map g := by
  induction rows with
  | nil => rfl
  | cons x rows ih =>
    unfold modify
    split
    · simp only [List.map_cons, keeps x List.mem_cons_self]
    · simp only [List.map_cons, ih fun y hy => keeps y (List.mem_cons_of_mem _ hy)]

theorem Unique.modify (unique : Unique key rows) (keeps : ∀ x ∈ rows, key (f x) = key x) :
    Unique key (modify key k f rows) := by
  rw [Unique, map_modify keeps]
  exact unique

theorem Unique.concat (unique : Unique key rows) (fresh : lookup key (key x) rows = none) :
    Unique key (rows ++ [x]) := by
  rw [Unique, List.map_append, List.nodup_append]
  refine ⟨unique, by simp, ?_⟩
  intro a ha b hb same
  obtain ⟨y, hy, rfl⟩ := List.mem_map.mp ha
  rw [List.map_singleton, List.mem_singleton] at hb
  exact lookup_none_iff.mp fresh y hy (same.trans hb)

omit [DecidableEq κ] in
theorem Unique.filter {p : α → Bool} (unique : Unique key rows) : Unique key (rows.filter p) :=
  List.Pairwise.sublist (List.Sublist.map key List.filter_sublist) unique

/-- Rows chosen by their key are found as before; the others are not found. -/
theorem lookup_filter {p : κ → Bool} :
    lookup key k (rows.filter fun x => p (key x)) = if p k then lookup key k rows else none := by
  induction rows with
  | nil => cases p k <;> rfl
  | cons x rows ih =>
    rw [List.filter_cons]
    by_cases chosen : p (key x) = true
    · rw [if_pos chosen, lookup_cons, lookup_cons, ih]
      split
      next same => rw [same] at chosen; rw [if_pos chosen]
      next => rfl
    · rw [if_neg chosen, lookup_cons, ih]
      by_cases same : key x = k
      · rw [same] at chosen
        rw [if_neg chosen, if_neg chosen]
      · rw [if_neg same]

/-- After a change, the key finds the changed row. -/
theorem lookup_modify_self (keeps : ∀ x ∈ rows, key (f x) = key x)
    (found : lookup key k rows = some x) : lookup key k (modify key k f rows) = some (f x) := by
  induction rows with
  | nil => cases found
  | cons y rows ih =>
    rw [lookup_cons] at found
    unfold modify
    split at found
    next here =>
      cases found
      rw [if_pos here, lookup_cons, if_pos ((keeps x List.mem_cons_self).trans here)]
    next elsewhere =>
      rw [if_neg elsewhere, lookup_cons, if_neg elsewhere]
      exact ih (fun y hy => keeps y (List.mem_cons_of_mem _ hy)) found

/-- Every other key finds what it found. -/
theorem lookup_modify_of_ne {k' : κ} (keeps : ∀ x ∈ rows, key (f x) = key x) (other : k' ≠ k) :
    lookup key k' (modify key k f rows) = lookup key k' rows := by
  induction rows with
  | nil => rfl
  | cons y rows ih =>
    unfold modify
    split
    next here =>
      rw [lookup_cons, lookup_cons, keeps y List.mem_cons_self, if_neg (here.symm ▸ other.symm),
        if_neg (here.symm ▸ other.symm)]
    next => rw [lookup_cons, lookup_cons, ih fun y hy => keeps y (List.mem_cons_of_mem _ hy)]

/-- A row of the changed table is the changed row or one of the old rows. -/
theorem mem_modify (found : lookup key k rows = some x) (mem : y ∈ modify key k f rows) :
    y = f x ∨ y ∈ rows := by
  induction rows with
  | nil => cases found
  | cons z rows ih =>
    rw [lookup_cons] at found
    unfold modify at mem
    split at found
    next here =>
      cases found
      rw [if_pos here] at mem
      exact (List.mem_cons.mp mem).imp id (List.mem_cons_of_mem _)
    next elsewhere =>
      rw [if_neg elsewhere] at mem
      rcases List.mem_cons.mp mem with rfl | mem
      · exact .inr List.mem_cons_self
      · exact (ih found mem).imp id (List.mem_cons_of_mem _)

/-- A row stays, or it is the row that was changed. -/
theorem mem_modify_or (mem : x ∈ rows) : x ∈ modify key k f rows ∨ key x = k ∧ f x ∈ modify key k f rows := by
  induction rows with
  | nil => cases mem
  | cons y rows ih =>
    unfold modify
    split
    next here =>
      rcases List.mem_cons.mp mem with rfl | mem
      · exact .inr ⟨here, List.mem_cons_self⟩
      · exact .inl (List.mem_cons_of_mem _ mem)
    next elsewhere =>
      rcases List.mem_cons.mp mem with rfl | mem
      · exact .inl List.mem_cons_self
      · exact (ih mem).imp (List.mem_cons_of_mem _) (And.imp_right (List.mem_cons_of_mem _))

/-- A row with another key stays. -/
theorem mem_modify_of_ne (mem : x ∈ rows) (other : key x ≠ k) : x ∈ modify key k f rows := by
  induction rows with
  | nil => cases mem
  | cons y rows ih =>
    unfold modify
    rcases List.mem_cons.mp mem with rfl | mem
    · rw [if_neg other]
      exact List.mem_cons_self
    · split
      · exact List.mem_cons_of_mem _ mem
      · exact List.mem_cons_of_mem _ (ih mem)

/-- What does not see rows of the key does not see the change. -/
theorem filter_modify {p : α → Bool} (blind : ∀ x, key x = k → p x = false ∧ p (f x) = false) :
    (modify key k f rows).filter p = rows.filter p := by
  induction rows with
  | nil => rfl
  | cons x rows ih =>
    rw [modify]
    split
    next same => rw [List.filter_cons, List.filter_cons, (blind x same).1, (blind x same).2]; rfl
    next other => rw [List.filter_cons, List.filter_cons, ih]

/-- Adding a row at the end does not change what a key that was found finds. -/
theorem lookup_concat_of_some (found : lookup key k rows = some x) :
    lookup key k (rows ++ [y]) = some x := by
  rw [lookup, List.find?_append, ← lookup, found]
  rfl

theorem lookup_concat_of_none (absent : lookup key k rows = none) :
    lookup key k (rows ++ [y]) = if key y = k then some y else none := by
  rw [lookup, List.find?_append, ← lookup, absent]
  exact lookup_cons

/-- What is made of each row is named after the row: among rows with different keys, a key names what
was made of its row. -/
theorem Unique.filterMap_filter {β : Type} {make : α → Option β} {tag : β → Option κ} {b : β}
    (named : ∀ x b, make x = some b → tag b = some (key x)) (unique : Unique key rows)
    (mem : x ∈ rows) (made : make x = some b) :
    (rows.filterMap make).filter (fun b => tag b = some (key x)) = [b] := by
  -- A row with another key makes nothing of this name.
  have none_of : ∀ rest : List α, (∀ y ∈ rest, key y ≠ key x) →
      (rest.filterMap make).filter (fun b => tag b = some (key x)) = [] := by
    intro rest other
    refine List.filter_eq_nil_iff.mpr fun c hc same => ?_
    obtain ⟨y, hy, makes⟩ := List.mem_filterMap.mp hc
    rw [named y c makes, decide_eq_true_eq] at same
    exact other y hy (Option.some.inj same)
  induction rows with
  | nil => cases mem
  | cons y rows ih =>
    obtain ⟨fresh, rest⟩ := List.nodup_cons.mp unique
    rcases List.mem_cons.mp mem with rfl | mem
    · have others := none_of rows fun z hz same => fresh (same ▸ List.mem_map_of_mem hz)
      rw [List.filterMap_cons_some made, List.filter_cons_of_pos (by simp [named x b made]), others]
    · have other : key y ≠ key x := fun same => fresh (same ▸ List.mem_map_of_mem mem)
      cases makes : make y with
      | none => rw [List.filterMap_cons_none makes]; exact ih rest mem
      | some c =>
        rw [List.filterMap_cons_some makes, List.filter_cons_of_neg (by simp [named y c makes, other])]
        exact ih rest mem

end Harpoon.Keyed
