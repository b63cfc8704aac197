import Harpoon.Wire.Number

/-!
# Streams in segments

Bytes arrive in segments, and a reader looks for a mark in what has arrived so far. Once found, a mark stays where it is; before all
of it is there, it is not found.
-/

namespace Harpoon.Wire

/-- Where the mark begins first. -/
def positionOf (mark : Bytes) : Bytes → Option Nat
  | [] => none
  | b :: bs => if mark.isPrefixOf (b :: bs) then some 0 else (positionOf mark bs).map (· + 1)

/-- The mark neither begins in these bytes, nor would with others behind them. -/
def apart (mark : Bytes) : Bytes → Bool
  | [] => true
  | b :: bs => !mark.isPrefixOf (b :: bs) && !(b :: bs).isPrefixOf mark && apart mark bs

/-- The bytes, in segments of at least one byte and at most so many. -/
structure Segmented (most : Nat) (segments : List Bytes) (bytes : Bytes) : Prop where
  whole : segments.flatten = bytes
  each : ∀ s ∈ segments, s ≠ [] ∧ s.length ≤ most

/-- Byte by byte. -/
def singly (bs : Bytes) : List Bytes := bs.map fun b => [b]

section

variable {mark a b bs : Bytes} {c : UInt8} {i most : Nat} {segments segments' : List Bytes}

theorem isPrefixOf_append (within : mark.isPrefixOf a = true) : mark.isPrefixOf (a ++ b) = true :=
  List.isPrefixOf_iff_prefix.mpr ((List.isPrefixOf_iff_prefix.mp within).trans (List.prefix_append a b))

/-- The mark is all there. -/
theorem positionOf_bound (found : positionOf mark bs = some i) : i + mark.length ≤ bs.length := by
  induction bs generalizing i with
  | nil => cases found
  | cons c bs ih =>
    rw [positionOf] at found
    split at found
    next here =>
      cases found
      have := (List.isPrefixOf_iff_prefix.mp here).length_le
      omega
    next =>
      obtain ⟨j, later, rfl⟩ := Option.map_eq_some_iff.mp found
      have := ih later
      rw [List.length_cons]
      omega

theorem positionOf_append (found : positionOf mark a = some i) : positionOf mark (a ++ b) = some i := by
  induction a generalizing i with
  | nil => cases found
  | cons c a ih =>
    have bound := positionOf_bound found
    rw [positionOf] at found
    rw [List.cons_append, positionOf]
    split at found
    next here =>
      have here' : mark.isPrefixOf (c :: (a ++ b)) = true := isPrefixOf_append here
      rw [if_pos here', found]
    next away =>
      obtain ⟨j, later, rfl⟩ := Option.map_eq_some_iff.mp found
      have away' : ¬ mark.isPrefixOf (c :: (a ++ b)) = true := by
        intro here
        refine away (List.isPrefixOf_iff_prefix.mpr ?_)
        have within : mark <+: (c :: a) ++ b := List.isPrefixOf_iff_prefix.mp here
        exact List.prefix_of_prefix_length_le within (List.prefix_append ..) (by omega)
      rw [if_neg away', ih later]
      rfl

theorem positionOf_at (found : positionOf mark bs = some i) : mark <+: bs.drop i := by
  induction bs generalizing i with
  | nil => cases found
  | cons c bs ih =>
    rw [positionOf] at found
    split at found
    next here =>
      cases found
      exact List.isPrefixOf_iff_prefix.mp here
    next =>
      obtain ⟨j, later, rfl⟩ := Option.map_eq_some_iff.mp found
      exact ih later

/-- A mark that is there is found. -/
theorem positionOf_of_at (some_ : mark ≠ []) (here : mark <+: bs.drop i) : ∃ j, positionOf mark bs = some j := by
  induction bs generalizing i with
  | nil =>
    rw [List.drop_nil] at here
    exact absurd (List.prefix_nil.mp here) some_
  | cons c bs ih =>
    by_cases first : mark.isPrefixOf (c :: bs) = true
    · exact ⟨0, by rw [positionOf, if_pos first]⟩
    · cases i with
      | zero => exact absurd (List.isPrefixOf_iff_prefix.mpr here) first
      | succ i =>
        obtain ⟨j, later⟩ := ih here
        exact ⟨j + 1, by rw [positionOf, if_neg first, later]; rfl⟩

/-- Where it begins in the whole, it begins in every part that has all of it. -/
theorem positionOf_front (some_ : mark ≠ []) (found : positionOf mark (a ++ b) = some i) (inside : i + mark.length ≤ a.length) :
    positionOf mark a = some i := by
  have here : mark <+: a.drop i := by
    have within := positionOf_at found
    rw [List.drop_append_of_le_length (by omega)] at within
    exact List.prefix_of_prefix_length_le within (List.prefix_append ..) (by rw [List.length_drop]; omega)
  obtain ⟨j, first⟩ := positionOf_of_at some_ here
  rw [positionOf_append first] at found
  rw [first, found]

/-- A part that does not have all of it does not have it. -/
theorem positionOf_early (found : positionOf mark (a ++ b) = some i) (outside : a.length < i + mark.length) :
    positionOf mark a = none := by
  cases first : positionOf mark a with
  | none => rfl
  | some j =>
    rw [positionOf_append first] at found
    cases found
    have := positionOf_bound first
    omega

theorem positionOf_part (none_ : positionOf mark (a ++ b) = none) : positionOf mark a = none := by
  cases first : positionOf mark a with
  | none => rfl
  | some j =>
    rw [positionOf_append first] at none_
    cases none_

/-- Behind bytes none of which begins it. -/
theorem positionOf_past (free : c ∉ a) : positionOf (c :: mark) (a ++ (c :: mark) ++ b) = some a.length := by
  induction a with
  | nil =>
    have here : (c :: mark).isPrefixOf (c :: (mark ++ b)) = true := List.isPrefixOf_iff_prefix.mpr (List.prefix_append ..)
    rw [List.nil_append, List.cons_append, positionOf, if_pos here]
    rfl
  | cons d a ih =>
    have other : c ≠ d := fun same => free (by rw [same]; exact List.mem_cons_self)
    have away : ¬ (c :: mark).isPrefixOf (d :: (a ++ (c :: mark) ++ b)) = true := by
      rw [List.isPrefixOf, Bool.and_eq_true, beq_iff_eq]
      exact fun h => other h.1
    rw [List.cons_append, List.cons_append, positionOf, if_neg away, ih fun mem => free (List.mem_cons_of_mem _ mem)]
    rfl

theorem positionOf_apart (free : apart mark a = true) : positionOf mark (a ++ b) = (positionOf mark b).map (· + a.length) := by
  induction a with
  | nil => exact Option.map_id'.symm
  | cons c a ih =>
    rw [apart, Bool.and_eq_true, Bool.and_eq_true, Bool.not_eq_true', Bool.not_eq_true'] at free
    obtain ⟨⟨whole, part⟩, rest⟩ := free
    have away : ¬ mark.isPrefixOf (c :: (a ++ b)) = true := by
      intro here
      have within : mark <+: (c :: a) ++ b := List.isPrefixOf_iff_prefix.mp here
      rcases List.prefix_or_prefix_of_prefix within (List.prefix_append ..) with begins | begins
      · exact Bool.eq_false_iff.mp whole (List.isPrefixOf_iff_prefix.mpr begins)
      · exact Bool.eq_false_iff.mp part (List.isPrefixOf_iff_prefix.mpr begins)
    rw [List.cons_append, positionOf, if_neg away, ih rest, Option.map_map]
    rfl

/-! ## Segments -/

theorem Segmented.nil (segmented : Segmented most [] bs) : bs = [] := segmented.whole.symm

theorem Segmented.cons {s : Bytes} (segmented : Segmented most (s :: segments) bs) :
    s ≠ [] ∧ s.length ≤ most ∧ ∃ rest, bs = s ++ rest ∧ Segmented most segments rest :=
  ⟨(segmented.each s List.mem_cons_self).1, (segmented.each s List.mem_cons_self).2, segments.flatten, segmented.whole.symm, rfl,
    fun r mem => segmented.each r (List.mem_cons_of_mem _ mem)⟩

theorem Segmented.append (first : Segmented most segments a) (second : Segmented most segments' b) :
    Segmented most (segments ++ segments') (a ++ b) :=
  ⟨by rw [List.flatten_append, first.whole, second.whole], fun s mem => (List.mem_append.mp mem).elim (first.each s) (second.each s)⟩

theorem Segmented.one (some_ : bs ≠ []) (fits : bs.length ≤ most) : Segmented most [bs] bs :=
  ⟨List.append_nil bs, fun s mem => by rw [List.mem_singleton.mp mem]; exact ⟨some_, fits⟩⟩

theorem singly_segmented (least : 0 < most) (bs : Bytes) : Segmented most (singly bs) bs := by
  constructor
  · induction bs with
    | nil => rfl
    | cons b bs ih => exact congrArg (b :: ·) ih
  · intro s mem
    obtain ⟨b, _, rfl⟩ := List.mem_map.mp mem
    exact ⟨List.cons_ne_nil _ _, least⟩

end

end Harpoon.Wire
