import Harpoon.Deploy.Ids

/-!
# Identifiers sort as they were made

The text of an identifier sorts as its bits do. A generator makes greater bits with every call, until it has made the
greatest there are.
-/

namespace Harpoon.Deploy

namespace Id

variable {v w : BitVec 128} {n : Nat} {rest l l' x y : List Char} {c d : Char}

/-! ## The text and the bits -/

theorem digits_append : digits n v rest = digits n v [] ++ rest := by
  induction n generalizing v rest with
  | zero => rfl
  | succ n ih => rw [digits, ih, digits, @ih (v >>> 5) [_], List.append_assoc, List.singleton_append]

theorem append_lt (less : l < l') (length : l.length = l'.length) : l ++ x < l' ++ y := by
  induction l generalizing l' with
  | nil =>
    rw [List.eq_nil_of_length_eq_zero length.symm] at less
    exact absurd less (List.lt_irrefl [])
  | cons c l ih =>
    cases l' with
    | nil => cases length
    | cons c' l' =>
      rw [List.cons_append, List.cons_append]
      rcases List.cons_lt_cons_iff.mp less with first | ⟨same, rest⟩
      · exact List.cons_lt_cons_iff.mpr (.inl first)
      · exact List.cons_lt_cons_iff.mpr (.inr ⟨same, ih rest (Nat.succ.inj length)⟩)

theorem alphabet_sorted : ∀ d e : Fin 32, d < e → alphabet.getD d '0' < alphabet.getD e '0' := by decide

/-- Digits of one length sort as their values do. -/
theorem digits_lt (less : v.toNat < w.toNat) (small : w.toNat < Nat.pow 32 n) : digits n v [] < digits n w [] := by
  induction n generalizing v w with
  | zero =>
    have one : w.toNat < 1 := small
    omega
  | succ n ih =>
    have size : Nat.pow 32 (n + 1) = Nat.pow 32 n * 32 := rfl
    have high : ∀ v : BitVec 128, (v >>> 5).toNat = v.toNat / 32 := fun v => by
      rw [BitVec.toNat_ushiftRight, Nat.shiftRight_eq_div_pow]
    rw [digits, digits, digits_append, @digits_append (w >>> 5)]
    rcases Nat.lt_or_ge (v.toNat / 32) (w.toNat / 32) with before | same
    · refine append_lt (ih (by rw [high, high]; exact before) ?_) (by rw [length_digits, length_digits])
      rw [high]
      omega
    · have same : v >>> 5 = w >>> 5 := by
        refine BitVec.eq_of_toNat_eq ?_
        rw [high, high]
        omega
      rw [same]
      refine List.append_left_lt (List.cons_lt_cons_iff.mpr (.inl ?_))
      exact alphabet_sorted ⟨v.toNat % 32, Nat.mod_lt _ (by decide)⟩ ⟨w.toNat % 32, Nat.mod_lt _ (by decide)⟩
        (by simp only [Fin.mk_lt_mk]; omega)

theorem encode_lt (less : v < w) : encode v < encode w := by
  rw [encode, encode, String.lt_iff, String.toList_ofList, String.toList_ofList]
  exact digits_lt less (Nat.lt_trans w.isLt (by decide))

theorem encode_lt_iff : encode v < encode w ↔ v < w := by
  refine ⟨fun less => ?_, encode_lt⟩
  refine Classical.byContradiction fun other => ?_
  rcases Nat.lt_or_ge w.toNat v.toNat with before | after
  · exact String.lt_irrefl _ (String.lt_trans less (encode_lt before))
  · have same : v = w := BitVec.eq_of_toNat_eq (Nat.le_antisymm after (Nat.not_lt.mp other))
    exact String.lt_irrefl _ (same ▸ less)

theorem asStr_lt {kind : IdKind} {i j : Id kind} (less : encode i.raw < encode j.raw) : i.asStr < j.asStr := by
  rw [asStr, asStr, String.lt_iff, String.toList_append, String.toList_append, String.toList_append,
    String.toList_append]
  exact List.append_left_lt (String.lt_iff.mp less)

end Id

/-- The identifiers are in the order of their texts: their bodies are, and so those of one kind are. -/
def Sorted (ids : List ((kind : IdKind) × Id kind)) : Prop :=
  ids.Pairwise fun a b => Id.encode a.2.raw < Id.encode b.2.raw ∧ (a.1 = b.1 → a.2.asStr < b.2.asStr)

namespace IdGenerator

/-- The generator made the greatest identifier there is. -/
def Exhausted (g : IdGenerator) : Prop := g.started = true ∧ g.lastMs = tsMask ∧ g.lastRand = randMask

/-- No identifier is made behind the greatest one. -/
def Roomy (g : IdGenerator) : List IdCall → Prop
  | [] => True
  | c :: cs =>
    let made := g.next c.request.kind c.nowMs c.fill
    (made.1.isOk = true → ¬ g.Exhausted) ∧ Roomy made.2 cs

/-- What a generator keeps fits an identifier. -/
structure Bounded (g : IdGenerator) : Prop where
  ms : g.lastMs ≤ tsMask
  rand : g.lastRand ≤ randMask

/-- The bits of the last identifier. -/
def value (g : IdGenerator) : Nat := g.lastMs * 0x100000000000000000000 + g.lastRand

variable {g : IdGenerator} {ms rand : Nat} {nowMs : UInt64} {fill : Except String (Vector UInt8 10)}
  {bytes : List UInt8} {calls : List IdCall}

/-! ## One call -/

theorem join_bits (small : rand ≤ randMask) : ms <<< 80 ||| rand = ms * 0x100000000000000000000 + rand := by
  rw [← Nat.shiftLeft_add_eq_or_of_lt (Nat.lt_of_le_of_lt small (by decide)), Nat.shiftLeft_eq]

theorem foldl_bytes (a : Nat) : (bytes.foldl (fun a x => a <<< 8 ||| x.toNat) a) + 1 ≤ (a + 1) * Nat.pow 256 bytes.length := by
  induction bytes generalizing a with
  | nil => exact Nat.le_of_eq (Nat.mul_one _).symm
  | cons x bytes ih =>
    have byte : x.toNat < 256 := x.toNat_lt
    have joined : a <<< 8 ||| x.toNat = a * 256 + x.toNat := by
      rw [← Nat.shiftLeft_add_eq_or_of_lt byte, Nat.shiftLeft_eq]
    have size : Nat.pow 256 (x :: bytes).length = 256 * Nat.pow 256 bytes.length := Nat.mul_comm _ _
    rw [List.foldl_cons, joined, size, ← Nat.mul_assoc]
    exact Nat.le_trans (ih _) (Nat.mul_le_mul_right _ (by omega))

/-- Ten bytes spell at most 80 bits. -/
theorem randOf_le (b : Vector UInt8 10) : randOf b.toList ≤ randMask := by
  have most := @foldl_bytes b.toList 0
  have size : b.toList.length = 10 := b.length_toList
  have bound : Nat.pow 256 10 = randMask + 1 := by decide
  rw [size, bound, Nat.zero_add, Nat.one_mul] at most
  exact Nat.le_of_succ_le_succ most

/-- A call fails and changes nothing, or it makes an identifier, greater than the last one while there is one. -/
theorem nextRaw_spec (so : g.Bounded) : (∃ e, g.nextRaw nowMs fill = (.error e, g)) ∨
    ∃ g' : IdGenerator, g.nextRaw nowMs fill = (.ok (BitVec.ofNat 128 g'.value), g') ∧ g'.Bounded ∧ g'.started = true ∧
      (g.started = true → ¬ g.Exhausted → g.value < g'.value) := by
  obtain ⟨msBound, randBound⟩ := so
  have now : nowMs.toNat &&& tsMask ≤ tsMask := Nat.and_le_right
  rw [nextRaw]
  generalize nowMs.toNat &&& tsMask = now_ at now ⊢
  dsimp only
  have later : (if g.started then max now_ g.lastMs else now_) ≤ tsMask := by
    split <;> omega
  have order : g.started = true → g.lastMs ≤ if g.started then max now_ g.lastMs else now_ := by
    intro started
    rw [if_pos started]
    exact Nat.le_max_right _ _
  generalize (if g.started then max now_ g.lastMs else now_) = ms at later order ⊢
  split
  next counts =>
    obtain ⟨_, same, small⟩ := counts
    refine .inr ⟨⟨ms, g.lastRand + 1, true⟩, ?_, ⟨later, small⟩, rfl, fun _ _ => ?_⟩
    · rw [join_bits small]
      rfl
    · rw [value, value, same]
      exact Nat.lt_succ_self _
  next fresh =>
    cases fill with
    | error e => exact .inl ⟨e, rfl⟩
    | ok b =>
      have bits := randOf_le b
      have greater : g.started = true → ¬ g.Exhausted →
          g.lastMs < if g.started ∧ ms = g.lastMs then (ms + 1) &&& tsMask else ms := by
        intro started room
        split
        next same =>
          -- the counter is used up, and the time is not
          have full : g.lastRand = randMask :=
            Nat.le_antisymm randBound (Nat.not_lt.mp fun small => fresh ⟨started, same.2, small⟩)
          have below : ms < tsMask :=
            Nat.lt_of_le_of_ne later fun top => room ⟨started, same.2 ▸ top, full⟩
          have stepped : (ms + 1) &&& tsMask = ms + 1 :=
            Nat.and_two_pow_sub_one_of_lt_two_pow (n := 48) (Nat.lt_of_le_of_lt below (by decide))
          rw [stepped, same.2]
          exact Nat.lt_succ_self _
        next other => exact Nat.lt_of_le_of_ne (order started) fun same => other ⟨started, same.symm⟩
      have next : (if g.started ∧ ms = g.lastMs then (ms + 1) &&& tsMask else ms) ≤ tsMask := by
        split
        · exact Nat.and_le_right
        · exact later
      generalize (if g.started ∧ ms = g.lastMs then (ms + 1) &&& tsMask else ms) = ms' at greater next ⊢
      refine .inr ⟨⟨ms', randOf b.toList, true⟩, ?_, ⟨next, bits⟩, rfl, fun started room => ?_⟩
      · dsimp only
        rw [join_bits bits]
        rfl
      · have less := greater started room
        have top : randMask < 0x100000000000000000000 := by decide
        rw [value, value]
        dsimp only
        omega

theorem value_lt (so : g.Bounded) : g.value < 0x100000000000000000000000000000000 := by
  obtain ⟨ms, rand⟩ := so
  rw [tsMask] at ms
  rw [randMask] at rand
  rw [value]
  omega

theorem exhausted_value (full : g.Exhausted) : g.value = 0xffffffffffffffffffffffffffffffff := by
  obtain ⟨_, ms, rand⟩ := full
  simp only [value, ms, rand, tsMask, randMask, Nat.reduceMul, Nat.reduceAdd]

/-- The bits of an identifier that was just made. -/
theorem raw_value (so : g.Bounded) : (BitVec.ofNat 128 g.value).toNat = g.value := by
  rw [BitVec.toNat_ofNat]
  exact Nat.mod_eq_of_lt (Nat.lt_of_lt_of_eq (value_lt so) (by decide))

/-! ## A run of calls -/

theorem next_spec (so : g.Bounded) (c : IdCall) : (∃ e, g.next c.request.kind c.nowMs c.fill = (.error e, g)) ∨
    ∃ g' : IdGenerator, g.next c.request.kind c.nowMs c.fill = (.ok ⟨BitVec.ofNat 128 g'.value⟩, g') ∧ g'.Bounded ∧
      g'.started = true ∧ (g.started = true → ¬ g.Exhausted → g.value < g'.value) := by
  rcases @nextRaw_spec g c.nowMs c.fill so with ⟨e, failed⟩ | ⟨g', made, bounded, started, greater⟩
  · refine .inl ⟨e, ?_⟩
    rw [next, failed]
    rfl
  · refine .inr ⟨g', ?_, bounded, started, greater⟩
    rw [next, made]
    rfl

/-- The identifiers of a run that has room are sorted, behind the last one that was made before. -/
theorem roomy_sorted (so : g.Bounded) (room : g.Roomy calls) : Sorted (g.issued calls) ∧
    (g.started = true → ∀ i ∈ g.issued calls, g.value < i.2.raw.toNat) := by
  induction calls generalizing g with
  | nil => exact ⟨List.Pairwise.nil, fun _ _ mem => by cases mem⟩
  | cons c cs ih =>
    rw [Roomy] at room
    rw [issued]
    rcases next_spec so c with ⟨e, failed⟩ | ⟨g', made, bounded, started, greater⟩
    · rw [failed] at room ⊢
      exact ih so room.2
    · rw [made] at room ⊢
      obtain ⟨sorted, behind⟩ := ih bounded room.2
      have bits := raw_value bounded
      refine ⟨List.pairwise_cons.mpr ⟨fun i mem => ?_, sorted⟩, fun running i mem => ?_⟩
      · have less : Id.encode (BitVec.ofNat 128 g'.value) < Id.encode i.2.raw := by
          refine Id.encode_lt ?_
          rw [BitVec.lt_def, bits]
          exact behind started i mem
        refine ⟨less, fun same => ?_⟩
        obtain ⟨kind, i⟩ := i
        cases same
        exact Id.asStr_lt less
      · have later := greater running (room.1 rfl)
        rcases List.mem_cons.mp mem with rfl | mem
        · rw [bits]
          exact later
        · exact Nat.lt_trans later (behind started i mem)

/-- Behind the greatest identifier no sorted run makes another. -/
theorem sorted_roomy (so : g.Bounded) (sorted : Sorted (g.issued calls))
    (behind : g.started = true → ∀ i ∈ g.issued calls, g.value < i.2.raw.toNat) : g.Roomy calls := by
  induction calls generalizing g with
  | nil => trivial
  | cons c cs ih =>
    rw [issued] at sorted behind
    rw [Roomy]
    rcases next_spec so c with ⟨e, failed⟩ | ⟨g', made, bounded, started, _⟩
    · rw [failed] at sorted behind ⊢
      exact ⟨fun ok => absurd ok Bool.false_ne_true, ih so sorted behind⟩
    · rw [made] at sorted behind ⊢
      have bits := raw_value bounded
      obtain ⟨first, rest⟩ := List.pairwise_cons.mp sorted
      refine ⟨fun _ full => ?_, ih bounded rest fun _ i mem => ?_⟩
      · have greatest := exhausted_value full
        have later := behind full.1 _ List.mem_cons_self
        have fits := value_lt bounded
        rw [bits] at later
        omega
      · have less := Id.encode_lt_iff.mp (first i mem).1
        rw [BitVec.lt_def, bits] at less
        exact less

theorem new_bounded : new.Bounded := ⟨Nat.zero_le _, Nat.zero_le _⟩

/-- A generator's identifiers are sorted exactly when none is made behind the greatest one, and the bodies that are read
are the texts of the 128-bit values, in their order. -/
theorem issued_sorted_iff (calls : List IdCall) :
    (Sorted (new.issued calls) ↔ new.Roomy calls) ∧
    (∀ v, Id.decode (Id.encode v) = .ok v) ∧ (∀ body v, Id.decode body = .ok v → body = Id.encode v) ∧
    ∀ v w, Id.encode v < Id.encode w ↔ v < w :=
  ⟨⟨fun sorted => sorted_roomy new_bounded sorted fun running => absurd running Bool.false_ne_true,
      fun room => (roomy_sorted new_bounded room).1⟩,
    Id.decode_encode, fun _ _ => Id.eq_encode_of_decode, fun _ _ => Id.encode_lt_iff⟩

/-- Two milliseconds below the end of time, the third identifier begins at zero again. -/
theorem wraps_at_the_end : ¬ Sorted (new.issued (List.replicate 3
    ⟨.deployment, 0xfffffffffffe, .ok (Vector.replicate 10 255)⟩)) := by
  intro sorted
  have made : (new.issued (List.replicate 3 ⟨.deployment, 0xfffffffffffe, .ok (Vector.replicate 10 255)⟩)).map
      (·.2.raw) = [0xfffffffffffeffffffffffffffffffff, 0xffffffffffffffffffffffffffffffff,
        0x000000000000ffffffffffffffffffff] := by decide
  have bodies := sorted.imp fun less => Id.encode_lt_iff.mp less.1
  have raws := List.pairwise_map.mpr bodies
  rw [made] at raws
  revert raws
  decide

end IdGenerator

end Harpoon.Deploy
