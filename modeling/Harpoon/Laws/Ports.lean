import Harpoon.Deploy.Ports

/-!
# Which port is leased

A search visits every port of its range once, going up from where it begins and from the last port on to the first. So
it gives the nearest port that is free, and fails only when there is none.
-/

namespace Harpoon.Deploy.Ports

/-- Steps from one port of a range to another, going up, and from the last port to the first. -/
def PortRange.steps (r : PortRange) (first p : UInt16) : Nat :=
  if first.toNat ≤ p.toNat then p.toNat - first.toNat else r.last.toNat - first.toNat + 1 + (p.toNat - r.start.toNat)

/-- Where a search begins: at the hint when it is in the range. -/
def PortRange.begins (r : PortRange) (hint : Option UInt16) : UInt16 := (hint.filter r.contains).getD r.start

/-- A port of the range that may be leased. -/
structure Available (r : PortRange) (occ : Occupancy) (exclude : List UInt16) (p : UInt16) : Prop where
  within : r.contains p = true
  free : occ.taken p = none
  allowed : p ∉ exclude

/-- The first port that may be leased, from a port on. -/
structure Nearest (r : PortRange) (first : UInt16) (available : UInt16 → Prop) (p : UInt16) : Prop where
  here : available p
  least : ∀ q, available q → r.steps first p ≤ r.steps first q

/-- The sums of a search stay below 65536, and nothing is taken from less. -/
structure InBounds (r : PortRange) (first : UInt16) (i : Nat) : Prop where
  least : r.start ≤ first
  ordered : r.start ≤ r.last
  counted : (first - r.start).toNat + i < 65536
  size : 0 < r.size ∧ r.size < 65536
  sum : r.start.toNat + ((first - r.start).toNat + i) % r.size < 65536

section

variable {r : PortRange} {first p q : UInt16} {i j : Nat} {purpose : Purpose} {containerPort : UInt16}
  {occ : Occupancy} {hint : Option UInt16} {exclude : List UInt16} {lease prev : PortLease} {e : PortError}

/-- A range that a search walks without an overflow. -/
structure PortRange.Sound (r : PortRange) : Prop where
  ordered : r.start ≤ r.last
  short : r.size ≤ 32768

theorem forPurpose_sound (purpose : Purpose) : (PortRange.forPurpose purpose).Sound := by
  cases purpose
  · exact ⟨by decide, by decide⟩
  · exact ⟨by decide, by decide⟩

theorem size_eq (ordered : r.start ≤ r.last) : r.size = r.last.toNat - r.start.toNat + 1 := by
  rw [PortRange.size, UInt16.toNat_sub_of_le _ _ ordered]

theorem contains_iff : r.contains p = true ↔ r.start.toNat ≤ p.toNat ∧ p.toNat ≤ r.last.toNat := by
  rw [PortRange.contains, Bool.and_eq_true, decide_eq_true_iff, decide_eq_true_iff, UInt16.le_iff_toNat_le,
    UInt16.le_iff_toNat_le]

theorem begins_within (ordered : r.start ≤ r.last) : r.contains (r.begins hint) = true := by
  have least : r.contains r.start = true := contains_iff.mpr ⟨Nat.le_refl _, UInt16.le_iff_toNat_le.mp ordered⟩
  unfold PortRange.begins
  cases hint with
  | none => exact least
  | some h =>
    by_cases within : r.contains h = true
    · rw [Option.filter_some, if_pos within]
      exact within
    · rw [Option.filter_some, if_neg within]
      exact least

/-- A search computes its `i`-th port without an overflow. -/
theorem in_bounds (sound : r.Sound) (within : r.contains first = true) (inside : i < r.size) : InBounds r first i := by
  obtain ⟨least, most⟩ := contains_iff.mp within
  have size := size_eq sound.ordered
  have short := sound.short
  have apart : (first - r.start).toNat = first.toNat - r.start.toNat :=
    UInt16.toNat_sub_of_le _ _ (UInt16.le_iff_toNat_le.mpr least)
  have top : r.last.toNat < 65536 := r.last.toNat_lt
  refine ⟨UInt16.le_iff_toNat_le.mpr least, sound.ordered, by omega, ⟨by omega, by omega⟩, ?_⟩
  have rest : ((first - r.start).toNat + i) % r.size < r.size := Nat.mod_lt _ (by omega)
  omega

theorem nth_toNat (sound : r.Sound) (within : r.contains first = true) (inside : i < r.size) :
    (r.nth first i).toNat = r.start.toNat + (first.toNat - r.start.toNat + i) % r.size := by
  obtain ⟨least, _, counted, ⟨_, size⟩, sum⟩ := in_bounds sound within inside
  have apart : (first - r.start).toNat = first.toNat - r.start.toNat := UInt16.toNat_sub_of_le _ _ least
  rw [PortRange.nth, UInt16.toNat_add, UInt16.toNat_mod, UInt16.toNat_ofNat', UInt16.toNat_ofNat',
    Nat.mod_eq_of_lt counted, Nat.mod_eq_of_lt size, Nat.mod_eq_of_lt sum, apart]

theorem nth_within (sound : r.Sound) (within : r.contains first = true) (inside : i < r.size) :
    r.contains (r.nth first i) = true := by
  have size := size_eq sound.ordered
  have ordered := UInt16.le_iff_toNat_le.mp sound.ordered
  have rest : (first.toNat - r.start.toNat + i) % r.size < r.size := Nat.mod_lt _ (by omega)
  rw [contains_iff, nth_toNat sound within inside]
  omega

/-- The `i`-th port of a search is `i` steps from where it begins. -/
theorem steps_nth (sound : r.Sound) (within : r.contains first = true) (inside : i < r.size) :
    r.steps first (r.nth first i) = i := by
  have size := size_eq sound.ordered
  have ordered := UInt16.le_iff_toNat_le.mp sound.ordered
  obtain ⟨least, most⟩ := contains_iff.mp within
  have place := nth_toNat sound within inside
  rw [PortRange.steps, place]
  rcases Nat.lt_or_ge (first.toNat - r.start.toNat + i) r.size with before | wraps
  · rw [Nat.mod_eq_of_lt before]
    split <;> omega
  · rw [Nat.mod_eq_sub_mod wraps, Nat.mod_eq_of_lt (by omega)]
    split <;> omega

/-- Every port of the range is as many steps away as its place in the search. -/
theorem nth_steps (sound : r.Sound) (within : r.contains first = true) (inRange : r.contains p = true) :
    r.steps first p < r.size ∧ r.nth first (r.steps first p) = p := by
  have size := size_eq sound.ordered
  obtain ⟨least, most⟩ := contains_iff.mp within
  obtain ⟨low, high⟩ := contains_iff.mp inRange
  have inside : r.steps first p < r.size := by
    rw [PortRange.steps]
    split <;> omega
  refine ⟨inside, UInt16.toNat_inj.mp ?_⟩
  rw [nth_toNat sound within inside, PortRange.steps]
  split
  · rw [Nat.mod_eq_of_lt (by omega)]
    omega
  · rw [Nat.mod_eq_sub_mod (by omega), Nat.mod_eq_of_lt (by omega)]
    omega

/-! ## The search -/

/-- The ports of a search, in their order. -/
def PortRange.walk (r : PortRange) (first : UInt16) : List UInt16 := (List.range r.size).map (r.nth first)

/-- May the port be leased, as the search tests it. -/
def open_ (occ : Occupancy) (exclude : List UInt16) (p : UInt16) : Bool :=
  (occ.taken p).isNone && !exclude.contains p

theorem open_iff : open_ occ exclude p = true ↔ occ.taken p = none ∧ p ∉ exclude := by
  simp [open_]

theorem walk_find (sound : r.Sound) (within : r.contains first = true) :
    (r.walk first).find? (open_ occ exclude) = some p ↔ Nearest r first (Available r occ exclude) p := by
  rw [PortRange.walk, List.find?_map, Option.map_eq_some_iff]
  constructor
  · rintro ⟨i, found, rfl⟩
    obtain ⟨free, mem, before⟩ := List.find?_range_eq_some.mp found
    have inside := List.mem_range.mp mem
    obtain ⟨free, allowed⟩ := open_iff.mp free
    refine ⟨⟨nth_within sound within inside, free, allowed⟩, fun q available => ?_⟩
    rw [steps_nth sound within inside]
    obtain ⟨_, place⟩ := nth_steps sound within available.within
    refine Nat.not_lt.mp fun earlier => ?_
    have shut := before _ earlier
    rw [Function.comp_apply, place, open_iff.mpr ⟨available.free, available.allowed⟩] at shut
    cases shut
  · rintro ⟨available, least⟩
    obtain ⟨inside, place⟩ := nth_steps sound within available.within
    refine ⟨r.steps first p, List.find?_range_eq_some.mpr ⟨?_, List.mem_range.mpr inside, fun j earlier => ?_⟩, place⟩
    · rw [Function.comp_apply, place]
      exact open_iff.mpr ⟨available.free, available.allowed⟩
    · rw [Bool.not_eq_true', Function.comp_apply, Bool.eq_false_iff]
      intro here
      have inside' : j < r.size := Nat.lt_trans earlier inside
      obtain ⟨free, allowed⟩ := open_iff.mp here
      have nearer := least _ ⟨nth_within sound within inside', free, allowed⟩
      rw [steps_nth sound within inside'] at nearer
      omega

theorem walk_none (sound : r.Sound) (within : r.contains first = true) :
    (r.walk first).find? (open_ occ exclude) = none ↔ ∀ p, ¬ Available r occ exclude p := by
  rw [List.find?_eq_none]
  constructor
  · intro shut p available
    obtain ⟨inside, place⟩ := nth_steps sound within available.within
    refine shut p (List.mem_map.mpr ⟨_, List.mem_range.mpr inside, place⟩) ?_
    exact open_iff.mpr ⟨available.free, available.allowed⟩
  · intro none p mem here
    obtain ⟨i, inside, rfl⟩ := List.mem_map.mp mem
    obtain ⟨free, allowed⟩ := open_iff.mp here
    exact none _ ⟨nth_within sound within (List.mem_range.mp inside), free, allowed⟩

theorem allocate_eq : allocate purpose containerPort occ hint exclude =
    match ((PortRange.forPurpose purpose).walk ((PortRange.forPurpose purpose).begins hint)).find? (open_ occ exclude) with
    | some p => .ok ⟨p, containerPort, purpose⟩
    | none => .error (.exhausted (PortRange.forPurpose purpose)) := rfl

/-- A search leases the nearest port that is free, and is exhausted when none is. -/
theorem allocate_nearest (purpose : Purpose) (containerPort : UInt16) (occ : Occupancy) (hint : Option UInt16)
    (exclude : List UInt16) :
    let r := PortRange.forPurpose purpose
    (∀ lease, allocate purpose containerPort occ hint exclude = .ok lease ↔ lease.containerPort = containerPort ∧
      lease.purpose = purpose ∧ Nearest r (r.begins hint) (Available r occ exclude) lease.hostPort) ∧
    ∀ e, allocate purpose containerPort occ hint exclude = .error e ↔
      e = .exhausted r ∧ ∀ p, ¬ Available r occ exclude p := by
  have sound := forPurpose_sound purpose
  have within : (PortRange.forPurpose purpose).contains ((PortRange.forPurpose purpose).begins hint) = true :=
    begins_within sound.ordered
  dsimp only
  rw [allocate_eq]
  constructor
  · intro lease
    constructor
    · intro done
      split at done
      next p found =>
        cases done
        exact ⟨rfl, rfl, (walk_find sound within).mp found⟩
      next => cases done
    · rintro ⟨rfl, rfl, nearest⟩
      rw [(walk_find sound within).mpr nearest]
  · intro e
    constructor
    · intro failed
      split at failed
      next => cases failed
      next found =>
        cases failed
        exact ⟨rfl, (walk_none sound within).mp found⟩
    · rintro ⟨rfl, none⟩
      rw [(walk_none sound within).mpr none]

/-- A search leases the nearest free port of its range, one replacement after a collision is the nearest one behind the
port that collided, and no sum overflows on the way. A second collision fails, whatever is free. -/
theorem lease_search (purpose : Purpose) (containerPort : UInt16) (occ : Occupancy) (hint : Option UInt16)
    (exclude : List UInt16) (prev : PortLease)
    (within : (PortRange.forPurpose prev.purpose).contains prev.hostPort = true) :
    let r := PortRange.forPurpose purpose
    (∀ lease, allocate purpose containerPort occ hint exclude = .ok lease ↔ lease.containerPort = containerPort ∧
      lease.purpose = purpose ∧ Nearest r (r.begins hint) (Available r occ exclude) lease.hostPort) ∧
    (∀ e, allocate purpose containerPort occ hint exclude = .error e ↔
      e = .exhausted r ∧ ∀ p, ¬ Available r occ exclude p) ∧
    (∀ i, i < r.size → InBounds r (r.begins hint) i) ∧
    let r := PortRange.forPurpose prev.purpose
    let next := prev.hostPort + 1
    next.toNat = prev.hostPort.toNat + 1 ∧
    (∀ lease, reallocateAfterCollision prev none occ = .ok lease ↔ lease.containerPort = prev.containerPort ∧
      lease.purpose = prev.purpose ∧
      Nearest r (r.begins (some next)) (Available r occ [prev.hostPort]) lease.hostPort) ∧
    (∀ e, reallocateAfterCollision prev none occ = .error e ↔
      e = .exhausted r ∧ ∀ p, ¬ Available r occ [prev.hostPort] p) ∧
    ∀ first, reallocateAfterCollision prev (some first) occ = .error (.collisionRepeated first prev.hostPort) := by
  have sound := forPurpose_sound purpose
  have below : prev.hostPort.toNat + 1 < 65536 := by
    have most := (contains_iff.mp within).2
    have top : (PortRange.forPurpose prev.purpose).last.toNat < 65535 := by
      cases prev.purpose <;> decide
    omega
  refine ⟨(allocate_nearest purpose containerPort occ hint exclude).1,
    (allocate_nearest purpose containerPort occ hint exclude).2,
    fun i inside => in_bounds sound (begins_within sound.ordered) inside, ?_,
    (allocate_nearest prev.purpose prev.containerPort occ (some (prev.hostPort + 1)) [prev.hostPort]).1,
    (allocate_nearest prev.purpose prev.containerPort occ (some (prev.hostPort + 1)) [prev.hostPort]).2, fun _ => rfl⟩
  exact Nat.mod_eq_of_lt below

/-- Behind the last port the search goes on with the first. -/
theorem replacement_wraps : reallocateAfterCollision ⟨38999, 8080, .application⟩ none ⟨[], [], []⟩ =
    .ok ⟨38000, 8080, .application⟩ := by
  obtain ⟨_, _, _, _, given, _⟩ :=
    lease_search .test 8080 ⟨[], [], []⟩ none [] ⟨38999, 8080, .application⟩ (by decide)
  refine (given _).mpr ⟨rfl, rfl, ⟨by decide, by decide, by decide⟩, fun q _ => ?_⟩
  have here : (PortRange.forPurpose .application).steps
    ((PortRange.forPurpose .application).begins (some (38999 + 1))) 38000 = 0 := by decide
  exact Nat.le_trans (Nat.le_of_eq here) (Nat.zero_le _)

/-- A second collision fails while a port is free. -/
theorem second_collision_refused : ¬ ∀ prev already occ,
    (∃ lease, reallocateAfterCollision prev already occ = .ok lease) ∨
      ∀ p, ¬ Available (PortRange.forPurpose prev.purpose) occ [prev.hostPort] p := by
  intro all
  rcases all ⟨38001, 8080, .application⟩ (some 38000) ⟨[], [], []⟩ with ⟨lease, done⟩ | none
  · cases done
  · exact none 38002 ⟨by decide, by decide, by decide⟩

end

end Harpoon.Deploy.Ports
