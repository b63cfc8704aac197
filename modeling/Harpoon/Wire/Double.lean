import Harpoon.Wire.Number

/-!
# Doubles

A finite double by its value. A decimal number is read as the nearest double, the even one of two that are as near; beyond the
greatest one it is none. Zero has no sign here.
-/

namespace Harpoon.Wire

/-- `mantissa` times two to the `exponent`. -/
structure Double where
  mantissa : Int
  exponent : Int
  deriving DecidableEq, Repr

namespace Double

/-- The natural number nearest to `n / d`, the even one of two. -/
def rounded (n d : Nat) : Nat :=
  if 2 * (n % d) < d then n / d else if d < 2 * (n % d) then n / d + 1 else n / d + n / d % 2

/-- `n / d`, divided by two to the `e`. -/
def scaled (n d : Nat) (e : Int) : Nat × Nat :=
  if 0 ≤ e then (n, d * Nat.pow 2 e.toNat) else (n * Nat.pow 2 (-e).toNat, d)

/-- The greatest `k` such that two to the `k` is at most `n / d`. -/
def magnitude (n d : Nat) : Int :=
  let k : Int := n.log2 - d.log2
  if (scaled n d k).2 ≤ (scaled n d k).1 then k else k - 1

/-- With 53 bits of a number of this magnitude, and the last of them not below the least exponent. -/
def exponentFor (n d : Nat) : Int := max (magnitude n d - 52) (-1074)

/-- A mantissa that rounding took to one more bit. -/
def carried (m : Nat) (e : Int) : Nat × Int := if m = Nat.pow 2 53 then (Nat.pow 2 52, e + 1) else (m, e)

def signed (negative : Bool) (n : Nat) : Int := if negative then -n else n

/-- The double nearest to `n / d`. -/
def nearest (negative : Bool) (n d : Nat) : Option Double :=
  let e := exponentFor n d
  let (m, e) := carried (rounded (scaled n d e).1 (scaled n d e).2) e
  if m = 0 then some ⟨0, 0⟩ else if 971 < e then none else some ⟨signed negative m, e⟩

/-- The double nearest to `n` times ten to the `e`. -/
def ofDecimal (negative : Bool) (n : Nat) (e : Int) : Option Double :=
  if 0 ≤ e then nearest negative (n * Nat.pow 10 e.toNat) 1 else nearest negative n (Nat.pow 10 (-e).toNat)

/-- The integer that a double is. -/
def toInt? (x : Double) : Option Int :=
  if 0 ≤ x.exponent then some (x.mantissa * Nat.pow 2 x.exponent.toNat)
  else
    let d : Int := Nat.pow 2 (-x.exponent).toNat
    if x.mantissa % d = 0 then some (x.mantissa / d) else none

section

variable {n : Nat} {negative : Bool}

theorem rounded_one : rounded n 1 = n := by
  rw [rounded, Nat.mod_one, if_pos (by decide), Nat.div_one]

theorem magnitude_one (positive : n ≠ 0) : magnitude n 1 = n.log2 := by
  have least : Nat.pow 2 n.log2 ≤ n := Nat.log2_self_le positive
  have start : ((n.log2 : Int) - (Nat.log2 1 : Int)) = n.log2 := by
    rw [show Nat.log2 1 = 0 from by decide]
    omega
  rw [magnitude, start, scaled, if_pos (Int.natCast_nonneg _), Int.toNat_natCast, Nat.one_mul, if_pos least]

/-- An integer of at most 53 bits is a double. -/
theorem nearest_one (small : n < Nat.pow 2 53) :
    ∃ x, nearest negative n 1 = some x ∧ x.toInt? = some (signed negative n) := by
  by_cases zero : n = 0
  · subst zero
    refine ⟨⟨0, 0⟩, ?_, ?_⟩ <;> cases negative <;> decide
  · obtain ⟨k, log⟩ : ∃ k, n.log2 = k := ⟨_, rfl⟩
    have above : n < Nat.pow 2 (k + 1) := log ▸ Nat.lt_log2_self
    have most : k ≤ 52 := by
      have : n.log2 < 53 := (Nat.log2_lt zero).mpr small
      omega
    have split : Nat.pow 2 (k + 1) * Nat.pow 2 (52 - k) = Nat.pow 2 53 := by
      have : k + 1 + (52 - k) = 53 := by omega
      exact this ▸ (Nat.pow_add 2 (k + 1) (52 - k)).symm
    have positive : 0 < Nat.pow 2 (52 - k) := Nat.two_pow_pos _
    have fits : n * Nat.pow 2 (52 - k) < Nat.pow 2 53 := split ▸ Nat.mul_lt_mul_of_pos_right above positive
    have exponent : exponentFor n 1 = (k : Int) - 52 := by
      rw [exponentFor, magnitude_one zero, log]
      omega
    have same : scaled n 1 (k - 52) = (n * Nat.pow 2 (52 - k), 1) := by
      by_cases all : k = 52
      · rw [scaled, all, if_pos (by decide)]
        show (n, 1) = (n * 1, 1)
        rw [Nat.mul_one]
      · rw [scaled, if_neg (by omega), show (-((k : Int) - 52)).toNat = 52 - k by omega]
    have some_ : n * Nat.pow 2 (52 - k) ≠ 0 := Nat.mul_ne_zero zero (Nat.ne_of_gt positive)
    refine ⟨⟨signed negative (n * Nat.pow 2 (52 - k)), k - 52⟩, ?_, ?_⟩
    · rw [nearest, exponent, same]
      dsimp only
      rw [rounded_one, carried, if_neg (Nat.ne_of_lt fits)]
      dsimp only
      rw [if_neg some_, if_neg (by omega)]
    · rw [toInt?]
      dsimp only
      by_cases all : k = 52
      · subst all
        rw [if_pos (by decide)]
        show some (signed negative (n * 1) * 1) = _
        rw [Nat.mul_one, Int.mul_one]
      · rw [if_neg (by omega), show (-((k : Int) - 52)).toNat = 52 - k by omega]
        have whole : signed negative (n * Nat.pow 2 (52 - k)) = signed negative n * (Nat.pow 2 (52 - k) : Nat) := by
          cases negative
          · exact Int.natCast_mul _ _
          · show -((n * Nat.pow 2 (52 - k) : Nat) : Int) = -(n : Int) * _
            rw [Int.natCast_mul, Int.neg_mul]
        have divisor : ((Nat.pow 2 (52 - k) : Nat) : Int) ≠ 0 := by omega
        rw [whole, if_pos (Int.mul_emod_left _ _), Int.mul_ediv_cancel _ divisor]

end

end Double

end Harpoon.Wire
