import Harpoon.Keyed.Rows

/-!
# Tables with unique keys

Rows that are known to have different keys. A row can be added only under a key that is free, and a
change of a row keeps its key, so no table ever has two rows with one key.
-/

namespace Harpoon.Keyed

/-- Rows with different keys. -/
structure Table {α κ : Type} [DecidableEq κ] (key : α → κ) where
  rows : List α
  unique : Unique key rows

namespace Table

variable {α β κ : Type} [DecidableEq κ] {key : α → κ}

def empty : Table key := ⟨[], List.nodup_nil⟩

/-- The row with key `k`. -/
def find (t : Table key) (k : κ) : Option α := lookup key k t.rows

/-- Add a row whose key is free. -/
def push (t : Table key) (x : α) (fresh : t.find (key x) = none) : Table key :=
  ⟨t.rows ++ [x], t.unique.concat fresh⟩

/-- Change the row with key `k`. -/
def change (k : κ) (f : α → α) (keeps : ∀ x, key (f x) = key x) (t : Table key) : Table key :=
  ⟨modify key k f t.rows, t.unique.modify fun x _ => keeps x⟩

/-- Change one row for each item. -/
def changeEach (name : β → κ) (f : β → α → α) (keeps : ∀ b x, key (f b x) = key x) (items : List β)
    (t : Table key) : Table key :=
  items.foldl (fun t b => t.change (name b) (f b) (keeps b)) t

/-- The rows whose key is chosen. -/
def keep (p : κ → Bool) (t : Table key) : Table key := ⟨t.rows.filter fun x => p (key x), t.unique.filter⟩

/-- A row for each row, under the same key. -/
def map {key' : β → κ} (f : α → β) (keeps : ∀ x, key' (f x) = key x) (t : Table key) : Table key' where
  rows := t.rows.map f
  unique := by
    have same : key' ∘ f = key := funext keeps
    rw [Unique, List.map_map, same]
    exact t.unique

theorem find_map {key' : β → κ} {f : α → β} {keeps : ∀ x, key' (f x) = key x} {t : Table key} {k : κ} :
    (t.map f keeps).find k = (t.find k).map f := by
  unfold find map lookup
  rw [List.find?_map]
  exact congrArg (Option.map f) (congrArg (List.find? · t.rows) (funext fun x => by rw [Function.comp, keeps x]))

theorem find_keep {t : Table key} {p : κ → Bool} {k : κ} :
    (t.keep p).find k = if p k then t.find k else none :=
  lookup_filter

/-- Without the row with key `k`, if there is one. -/
def remove (k : κ) (t : Table key) : Table key := t.keep fun k' => k' ≠ k

theorem find_remove_self {t : Table key} {k : κ} : (t.remove k).find k = none := by
  rw [remove, find_keep, if_neg (by simp)]

/-- Add a row, in place of the one with its key. -/
def insert (x : α) (t : Table key) : Table key := (t.remove (key x)).push x find_remove_self

variable {t : Table key} {k k' : κ} {f : α → α} {x y : α}

@[ext] theorem ext {t u : Table key} (same : t.rows = u.rows) : t = u := by
  cases t; cases u; congr

instance [DecidableEq α] : DecidableEq (Table key) := fun t u =>
  decidable_of_iff (t.rows = u.rows) ⟨ext, congrArg rows⟩

@[simp] theorem find_empty : (empty : Table key).find k = none := rfl

theorem mem_of_find (found : t.find k = some x) : x ∈ t.rows := lookup_mem found

theorem key_of_find (found : t.find k = some x) : key x = k := lookup_key found

theorem find_of_mem (mem : x ∈ t.rows) : t.find (key x) = some x := t.unique.lookup_of_mem mem

/-- The rows are what the keys find. -/
theorem mem_iff : x ∈ t.rows ↔ t.find (key x) = some x := ⟨find_of_mem, mem_of_find⟩

theorem find_push {fresh : t.find (key x) = none} :
    (t.push x fresh).find k = if key x = k then some x else t.find k := by
  unfold find push
  cases found : lookup key k t.rows with
  | none => exact lookup_concat_of_none found
  | some y =>
    have other : key x ≠ k := by
      rintro rfl
      rw [find, found] at fresh
      cases fresh
    rw [lookup_concat_of_some found, if_neg other]

theorem find_insert : (t.insert x).find k = if key x = k then some x else t.find k := by
  rw [insert, find_push]
  split
  next => rfl
  next other => rw [remove, find_keep, if_pos (by simpa using fun same => other same.symm)]

theorem mem_remove (mem : y ∈ (t.remove k).rows) : y ∈ t.rows := (List.mem_filter.mp mem).1

/-- A row after an insertion is the new one or one of the old ones. -/
theorem mem_insert (mem : y ∈ (t.insert x).rows) : y = x ∨ y ∈ t.rows := by
  have found := find_of_mem mem
  rw [find_insert] at found
  split at found
  next => exact .inl (Option.some.inj found).symm
  next => exact .inr (mem_of_find found)

/-- A change is seen under its own key only. -/
theorem find_change {keeps : ∀ x, key (f x) = key x} :
    (t.change k f keeps).find k' = if k' = k then (t.find k').map f else t.find k' := by
  unfold find change
  by_cases same : k' = k
  · subst same
    rw [if_pos rfl]
    cases found : lookup key k' t.rows with
    | some x => exact lookup_modify_self (fun x _ => keeps x) found
    | none =>
      have keys : (modify key k' f t.rows).map key = t.rows.map key := map_modify fun x _ => keeps x
      refine lookup_none_iff.mpr fun x mem same => ?_
      have old : key x ∈ t.rows.map key := keys ▸ List.mem_map_of_mem mem
      obtain ⟨y, hy, eq⟩ := List.mem_map.mp old
      exact lookup_none_iff.mp found y hy (eq.trans same)
  · rw [if_neg same]
    exact lookup_modify_of_ne (fun x _ => keeps x) same

section changeEach

variable {name : β → κ} {g : β → α → α} {keeps : ∀ b x, key (g b x) = key x} {items : List β}

@[simp] theorem changeEach_nil : t.changeEach name g keeps [] = t := rfl

theorem changeEach_cons {b : β} :
    t.changeEach name g keeps (b :: items) =
      (t.change (name b) (g b) (keeps b)).changeEach name g keeps items := rfl

/-- A row is changed by the items that name it, in their order, and by no other. -/
theorem find_changeEach :
    (t.changeEach name g keeps items).find k =
      (t.find k).map fun x => (items.filter fun b => name b = k).foldl (fun x b => g b x) x := by
  induction items generalizing t with
  | nil => simp
  | cons b items ih =>
    rw [changeEach_cons, ih, find_change]
    by_cases same : k = name b
    · rw [if_pos same, List.filter_cons_of_pos (by simp [same]), Option.map_map]
      rfl
    · have other : name b ≠ k := fun h => same h.symm
      rw [if_neg same, List.filter_cons_of_neg (by simp [other])]

/-- A key that no item names finds what it found. -/
theorem find_changeEach_of_not_mem (other : ∀ b ∈ items, name b ≠ k) :
    (t.changeEach name g keeps items).find k = t.find k := by
  have none : (items.filter fun b => name b = k) = [] := by
    simpa using other
  rw [find_changeEach, none]
  simp

/-- A row that some item names is as the last such item leaves it, when each item forgets what the
others did. -/
theorem find_changeEach_of_mem (keeps : ∀ b x, key (g b x) = key x) (forgets : ∀ b c x, g b (g c x) = g b x) (named : ∃ b ∈ items, name b = k)
    (found : t.find k = some x) :
    ∃ b ∈ items, name b = k ∧ (t.changeEach name g keeps items).find k = some (g b x) := by
  have last : ∀ (l : List β) (b : β),
      ∃ c ∈ b :: l, (b :: l).foldl (fun x b => g b x) x = g c x := by
    intro l
    induction l with
    | nil => exact fun b => ⟨b, List.mem_cons_self, rfl⟩
    | cons c l ih =>
      intro b
      obtain ⟨d, hd, eq⟩ := ih c
      refine ⟨d, List.mem_cons_of_mem _ hd, ?_⟩
      have skip : ∀ (l : List β), l ≠ [] → l.foldl (fun x b => g b x) (g b x) = l.foldl (fun x b => g b x) x := by
        intro l ne
        cases l with
        | nil => exact absurd rfl ne
        | cons e l => simp only [List.foldl_cons, forgets]
      rw [List.foldl_cons, skip _ (by simp), eq]
  obtain ⟨b, mem, same⟩ := named
  rw [find_changeEach, found]
  have inFilter : b ∈ items.filter fun b => name b = k := List.mem_filter.mpr ⟨mem, by simpa using same⟩
  cases named : items.filter fun b => name b = k with
  | nil => rw [named] at inFilter; cases inFilter
  | cons c l =>
    obtain ⟨d, hd, eq⟩ := last l c
    obtain ⟨hd, same⟩ := List.mem_filter.mp (named ▸ hd)
    exact ⟨d, hd, by simpa using same, congrArg some eq⟩

/-- The same change for every item changes the rows that are named, once. -/
theorem find_changeEach_same (keeps : ∀ x, key (f x) = key x) (idem : ∀ x, f (f x) = f x) :
    (t.changeEach name (fun _ => f) (fun _ => keeps) items).find k =
      if k ∈ items.map name then (t.find k).map f else t.find k := by
  by_cases named : k ∈ items.map name
  · rw [if_pos named]
    obtain ⟨b, mem, same⟩ := List.mem_map.mp named
    cases found : t.find k with
    | none => rw [find_changeEach, found]; rfl
    | some x =>
      have after := find_changeEach_of_mem (g := fun _ => f) (fun _ => keeps) (fun _ _ => idem)
        ⟨b, mem, same⟩ found
      obtain ⟨_, _, _, after⟩ := after
      exact after
  · rw [if_neg named]
    exact find_changeEach_of_not_mem fun b mem same => named (List.mem_map.mpr ⟨b, mem, same⟩)

/-- What every change keeps of a row is what it was. -/
theorem map_changeEach {γ : Type} {p : α → γ} (same : ∀ b x, p (g b x) = p x) :
    (t.changeEach name g keeps items).rows.map p = t.rows.map p := by
  induction items generalizing t with
  | nil => rfl
  | cons b items ih =>
    rw [changeEach_cons, ih]
    exact map_modify fun x _ => same b x

end changeEach

end Table

/-! ## A traversal -/

section

variable {α κ σ τ : Type} [DecidableEq κ] {key : α → κ} {view : σ → κ → τ} {g : σ → α → σ} {h : α → τ → τ}

/-- Where the change for each row is seen under the row's key only, a traversal of rows with different keys is seen
under a key as the change for the row it finds. -/
theorem foldl_lookup {k : κ} {rows : List α}
    (one : ∀ x ∈ rows, ∀ s k, view (g s x) k = if k = key x then h x (view s k) else view s k)
    (unique : Unique key rows) (s : σ) :
    view (rows.foldl g s) k = (lookup key k rows).elim (view s k) fun x => h x (view s k) := by
  induction rows generalizing s with
  | nil => rfl
  | cons x rows ih =>
    obtain ⟨fresh, rest⟩ := List.nodup_cons.mp unique
    rw [List.foldl_cons, ih (fun y mem => one y (List.mem_cons_of_mem x mem)) rest, lookup_cons,
      one x List.mem_cons_self]
    by_cases same : k = key x
    · subst same
      have absent : lookup key (key x) rows = none :=
        lookup_none_iff.mpr fun y mem same => fresh (same ▸ List.mem_map_of_mem mem)
      rw [absent, if_pos rfl, if_pos rfl]
      rfl
    · rw [if_neg same, if_neg (Ne.symm same)]

end

end Harpoon.Keyed
