import Harpoon.Laws.Pins

/-!
# The most specific definition

What an application gets for a name, said scope by scope: the latest definition of the most specific scope that has one,
and nothing if that is an unset. The resolution, which goes through the scopes from the widest on and writes over what
it has, finds just that. The limits of a resolved set are checked afterwards and can refuse it.
-/

namespace Harpoon.Config

open Deploy

/-- The latest definition of a name in a scope. -/
def ConfigState.latest (s : ConfigState) (scope : Scope) (name : String) : Option Def :=
  (s.defs.filter fun d => d.scope = scope ∧ d.name = name).getLast?

/-- The scopes of an application, the most specific first. -/
def specificFirst (project : Option String) (app : ApplicationId) (env : Option String) : List Scope :=
  let both (scope : Option String → Scope) : List Scope := (env.toList.map fun e => scope (some e)) ++ [scope none]
  both (Scope.application app) ++ (project.toList.flatMap fun p => both (Scope.project p)) ++ both Scope.everywhere

/-- The definition that decides about a name: the latest one of the most specific scope that defines it. -/
def ConfigState.deciding (s : ConfigState) (project : Option String) (app : ApplicationId) (env : Option String)
    (name : String) : Option Def :=
  (specificFirst project app env).findSome? fun scope => s.latest scope name

/-- What a definition gives, if it does not unset the name. -/
def Def.entry (d : Def) : Option Entry :=
  match d.setting with
  | .unset => none
  | .set flags value => some ⟨d.name, flags, some d.scope, value⟩

/-- The two have the same definitions in the same order, scope by scope. -/
def SameInScopes (s t : ConfigState) : Prop :=
  ∀ scope, (s.defs.filter fun d => d.scope = scope) = t.defs.filter fun d => d.scope = scope

section

variable {s t : ConfigState} {e : Entry} {d : Def} {scope : Scope} {out : Keyed.Table Entry.name} {name : String}
  {project env : Option String} {app : ApplicationId} {scopes : List Scope}

theorem order_reverse : (ConfigState.order project app env).reverse = specificFirst project app env := by
  cases project <;> cases env <;> rfl

/-! ## One scope -/

theorem find_current : s.current.find (scope, name) = s.latest scope name := by
  have fold : ∀ (defs : List Def) (m : Keyed.Table fun d : Def => (d.scope, d.name)),
      (defs.foldl (fun m d => m.insert d) m).find (scope, name) =
        (defs.filter fun d => d.scope = scope ∧ d.name = name).getLast?.or (m.find (scope, name)) := by
    intro defs
    induction defs with
    | nil => exact fun m => rfl
    | cons d rest ih =>
      intro m
      rw [List.foldl_cons, ih, Keyed.Table.find_insert, List.filter_cons]
      by_cases own : d.scope = scope ∧ d.name = name
      · rw [if_pos (Prod.ext own.1 own.2), if_pos (decide_eq_true own), List.getLast?_cons]
        cases (rest.filter fun d => d.scope = scope ∧ d.name = name).getLast? <;> rfl
      · have other : (d.scope, d.name) ≠ (scope, name) := fun same => own (Prod.mk.inj same)
        rw [if_neg other, if_neg (by simpa using own)]
  exact (fold s.defs .empty).trans (Option.or_none)

theorem find_settle (own : d.scope = scope) :
    (ConfigState.settle scope out d).find name = if name = d.name then d.entry else out.find name := by
  unfold ConfigState.settle Def.entry
  cases d.setting with
  | unset =>
    by_cases same : name = d.name
    · rw [if_pos same, same]
      exact Keyed.Table.find_remove_self
    · rw [if_neg same]
      exact Keyed.Table.find_keep.trans (if_pos (decide_eq_true same))
  | set flags value =>
    rw [← own]
    simp only [Keyed.Table.find_insert, eq_comm]

theorem lookup_scope {rows : List Def} :
    Keyed.lookup Def.name name (rows.filter (·.scope = scope)) =
      Keyed.lookup (fun d : Def => (d.scope, d.name)) (scope, name) rows := by
  unfold Keyed.lookup
  rw [List.find?_filter]
  congr 1
  funext d
  simp [Prod.ext_iff]

theorem unique_scope (s : ConfigState) : Keyed.Unique Def.name (s.current.rows.filter (·.scope = scope)) := by
  have apart := (List.pairwise_map.mp s.current.unique).sublist (List.filter_sublist (p := (·.scope = scope)))
  refine List.pairwise_map.mpr (apart.imp_of_mem fun {a b} left right different same => different ?_)
  have own : a.scope = scope := by simpa using (List.mem_filter.mp left).2
  have own' : b.scope = scope := by simpa using (List.mem_filter.mp right).2
  exact Prod.ext (own.trans own'.symm) same

/-- Step lemma: a scope decides about the names it defines and leaves the others as they are. -/
theorem find_settleScope :
    (s.settleScope out scope).find name = (s.latest scope name).elim (out.find name) Def.entry := by
  have one : ∀ d ∈ s.current.rows.filter (·.scope = scope), ∀ (out : Keyed.Table Entry.name) name,
      (ConfigState.settle scope out d).find name = if name = d.name then d.entry else out.find name :=
    fun d mem _ _ => find_settle (by simpa using (List.mem_filter.mp mem).2)
  refine (Keyed.foldl_lookup (h := fun d _ => d.entry) (fun d mem out name => one d mem out name)
    (unique_scope s) out).trans ?_
  rw [lookup_scope, ← find_current]
  rfl

/-! ## All scopes -/

theorem find_scopes :
    (scopes.foldl s.settleScope out).find name =
      (scopes.reverse.findSome? fun scope => s.latest scope name).elim (out.find name) Def.entry := by
  induction scopes generalizing out with
  | nil => rfl
  | cons scope rest ih =>
    rw [List.foldl_cons, ih, List.reverse_cons, List.findSome?_append, find_settleScope]
    cases rest.reverse.findSome? fun scope => s.latest scope name with
    | some d => rfl
    | none => simp

theorem find_effective :
    (s.effective project app env).find name = (s.deciding project app env name).bind Def.entry := by
  rw [ConfigState.effective, find_scopes, order_reverse, ← ConfigState.deciding]
  cases s.deciding project app env name <;> rfl

theorem latest_same (same : SameInScopes s t) : t.latest scope name = s.latest scope name := by
  have split : ∀ u : ConfigState, u.latest scope name =
      ((u.defs.filter fun d => d.scope = scope).filter fun d => d.name = name).getLast? := by
    intro u
    rw [List.filter_filter]
    simp only [ConfigState.latest, Bool.decide_and, Bool.and_comm]
  rw [split, split, same]

/-- Entries in the order of their names are told by what is among them. -/
theorem Ordered.ext {entries entries' : List Entry} (ordered : Ordered entries) (ordered' : Ordered entries')
    (same : ∀ e, e ∈ entries ↔ e ∈ entries') : entries = entries' := by
  have once : ∀ {l : List Entry}, Ordered l → l.Nodup := by
    intro l inOrder
    refine inOrder.imp fun {a b} less equal => ?_
    rw [equal] at less
    exact String.lt_irrefl _ less
  have perm := (List.perm_ext_iff_of_nodup (once ordered) (once ordered')).mpr same
  refine perm.eq_of_pairwise (fun a b _ _ less more => ?_) ordered ordered'
  cases String.lt_irrefl _ (String.lt_trans less more)

theorem deciding_same (same : SameInScopes s t) :
    t.deciding project app env name = s.deciding project app env name := by
  simp only [ConfigState.deciding, latest_same same]

end

/-- **The resolution** gives each name once, with what the latest definition of the most specific scope that defines it
says, and leaves out the names that it unsets; the order of definitions of different scopes makes no difference. The
limits of a resolved set are the only reason to refuse. -/
theorem resolve_most_specific (s : ConfigState) (project : Option String) (app : ApplicationId) (env : Option String) :
    ∃ entries, Ordered entries ∧
      (∀ e, e ∈ entries ↔ (s.deciding project app env e.name).bind Def.entry = some e) ∧
      s.resolve project app env = (do validateEntries entries; return entries) ∧
      ∀ t, SameInScopes s t → t.resolve project app env = s.resolve project app env := by
  let result (s : ConfigState) : List Entry := byName (s.effective project app env).rows
  have ordered : ∀ s, Ordered (result s) := fun s => ordered_byName (s.effective project app env).unique
  have members : ∀ s e, e ∈ result s ↔ (s.deciding project app env e.name).bind Def.entry = some e := by
    intro s e
    rw [mem_byName, Keyed.Table.mem_iff, find_effective]
  refine ⟨result s, ordered s, members s, rfl, fun t same => ?_⟩
  have one : result t = result s := by
    refine (ordered t).ext (ordered s) fun e => ?_
    rw [members, members, deciding_same same]
  show (do validateEntries (result t); return result t) = (do validateEntries (result s); return result s)
  rw [one]

/-! ## One secret too many -/

/-- A secret for each of 65 names. -/
def vault : ConfigState where
  defs := (List.range 65).map fun i => ⟨.everywhere none, numbered i, .set ⟨false, true⟩ (.secret ⟨"s", 1⟩), 0⟩
  versions := Keyed.Table.empty.insert ⟨"s", 1⟩
  snapshots := []

theorem countP_of_valid {entries : List Entry} (valid : validateEntries entries = .ok ()) :
    entries.countP Entry.isSecret ≤ maxSecretEntries := by
  unfold validateEntries at valid
  split at valid
  · cases valid
  · obtain ⟨_, _, valid⟩ := Journal.bind_ok valid
    dsimp only at valid
    by_cases large : configBytes entries > maxConfigBytes
    · rw [if_pos large] at valid
      cases valid
    · rw [if_neg large] at valid
      by_cases many : entries.countP Entry.isSecret > maxSecretEntries
      · rw [if_pos many] at valid
        cases valid
      · exact Nat.le_of_not_lt many

/-- More secrets than a deployment may have are not resolved. -/
theorem vault_refused :
    ¬ ∀ (s : ConfigState) project app env, ∃ entries, s.resolve project app env = .ok entries ∧ Ordered entries ∧
      ∀ e, e ∈ entries ↔ (s.deciding project app env e.name).bind Def.entry = some e := by
  intro always
  obtain ⟨entries, resolved, _, _⟩ := always vault none ⟨1⟩ none
  have count : (vault.effective none ⟨1⟩ none).rows.countP Entry.isSecret = 65 := by decide +kernel
  obtain ⟨_, valid, _⟩ := Journal.bind_ok resolved
  have few := countP_of_valid valid
  rw [byName, (List.mergeSort_perm _ _).countP_eq, count] at few
  exact absurd few (by decide)

end Harpoon.Config
