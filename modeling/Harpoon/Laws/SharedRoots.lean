import Harpoon.Host.HostPathTranslator

/-!
# Shared roots

A shared root contains what is at it or below it, by the text of the path as `URL.standardized` has it; the two names
of the temporary directory are one. A path is translated by the longest of the roots that contain it.
-/

namespace Harpoon.HostPaths

open Docker (Json)
open Wire (Free fields joined splitOnce stripPrefix)

variable {File : Type} {mac : Mac File} {roots : List SharedRoot} {r : SharedRoot} {s p t src guest rest std : String}

/-! ## Texts -/

theorem hasPrefix_iff : hasPrefix s p = true ↔ ∃ t, s = p ++ t := by
  rw [hasPrefix, Option.isSome_iff_exists]
  constructor
  · rintro ⟨t, strips⟩
    exact ⟨t, Wire.eq_of_stripPrefix strips⟩
  · rintro ⟨t, rfl⟩
    exact ⟨t, Wire.stripPrefix_append⟩

theorem dropFirst_append (p t : String) : dropFirst p.length (p ++ t) = t := by
  rw [dropFirst, String.toList_append, ← String.length_toList, List.drop_left, String.ofList_toList]

theorem cover_iff : (decide (s = p) || hasPrefix s (p ++ "/")) = true ↔ ∃ rest, Tail rest ∧ s = p ++ rest := by
  rw [Bool.or_eq_true, decide_eq_true_iff, hasPrefix_iff]
  constructor
  · rintro (rfl | ⟨t, rfl⟩)
    · exact ⟨"", .inl rfl, (String.append_empty).symm⟩
    · exact ⟨"/" ++ t, .inr ⟨t, rfl⟩, String.append_assoc⟩
  · rintro ⟨_, rfl | ⟨t, rfl⟩, rfl⟩
    · exact .inl String.append_empty
    · exact .inr ⟨t, String.append_assoc.symm⟩

theorem tmp_apart (s t : String) : "/tmp" ++ s ≠ "/private/tmp" ++ t := by
  intro same
  have chars := congrArg String.toList same
  rw [String.toList_append, String.toList_append] at chars
  cases chars

/-! ## The longest shared root -/

/-- The path is the root or below it, and what it is behind it. -/
def Remainder (r : SharedRoot) (path rest : String) : Prop :=
  Tail rest ∧ (path = r.hostPath ++ rest ∨ r.hostPath = "/private/tmp" ∧ path = "/tmp" ++ rest ∨
    r.hostPath = "/tmp" ∧ path = "/private/tmp" ++ rest)

def Contains (r : SharedRoot) (path : String) : Prop := ∃ rest, Remainder r path rest

/-- The longest shared root that contains the path, the first of them where they are several. -/
def Longest (roots : List SharedRoot) (path : String) (r : SharedRoot) : Prop :=
  ∃ before behind, roots = before ++ r :: behind ∧ Contains r path ∧
    (∀ q ∈ before, Contains q path → q.hostPath.length < r.hostPath.length) ∧
    ∀ q ∈ behind, Contains q path → q.hostPath.length ≤ r.hostPath.length

theorem remainder_eq (left : Remainder r std rest) : remainder std r = some rest := by
  obtain ⟨tail, rfl | ⟨root, rfl⟩ | ⟨root, rfl⟩⟩ := left
  · rcases tail with rfl | ⟨t, rfl⟩
    · rw [remainder, if_pos String.append_empty]
    · have apart : r.hostPath ++ ("/" ++ t) ≠ r.hostPath := by
        intro same
        have chars := congrArg String.toList same
        rw [String.toList_append, String.toList_append] at chars
        cases List.append_right_eq_self.mp chars
      have below : hasPrefix (r.hostPath ++ ("/" ++ t)) (r.hostPath ++ "/") = true :=
        hasPrefix_iff.mpr ⟨t, String.append_assoc.symm⟩
      rw [remainder, if_neg apart, if_pos below, dropFirst_append]
  · have apart : ¬ hasPrefix ("/tmp" ++ rest) ("/private/tmp" ++ "/") = true := by
      intro below
      obtain ⟨t, same⟩ := hasPrefix_iff.mp below
      exact tmp_apart rest ("/" ++ t) (same.trans String.append_assoc)
    have other : "/tmp" ++ rest ≠ "/private/tmp" := fun same => tmp_apart rest "" (same.trans String.append_empty.symm)
    have linked : (decide ("/private/tmp" = "/private/tmp") && hasPrefix ("/tmp" ++ rest) "/tmp") = true := by
      rw [Bool.and_eq_true, hasPrefix_iff]
      exact ⟨rfl, rest, rfl⟩
    rw [remainder, root, if_neg other, if_neg apart, if_pos linked]
    split
    next same => rw [String.append_eq_left_iff.mp same]
    next => rw [dropFirst_append]
  · have apart : ¬ hasPrefix ("/private/tmp" ++ rest) ("/tmp" ++ "/") = true := by
      intro below
      obtain ⟨t, same⟩ := hasPrefix_iff.mp below
      exact tmp_apart ("/" ++ t) rest (String.append_assoc.symm.trans same.symm)
    have other : "/private/tmp" ++ rest ≠ "/tmp" := fun same => tmp_apart "" rest (String.append_empty.trans same.symm)
    have neither : ¬ (decide ("/tmp" = "/private/tmp") && hasPrefix ("/private/tmp" ++ rest) "/tmp") = true := by
      rw [Bool.and_eq_true]
      exact fun both => absurd (of_decide_eq_true both.1) (by decide)
    have linked : (decide ("/tmp" = "/tmp") && hasPrefix ("/private/tmp" ++ rest) "/private/tmp") = true := by
      rw [Bool.and_eq_true, hasPrefix_iff]
      exact ⟨rfl, rest, rfl⟩
    rw [remainder, root, if_neg other, if_neg apart, if_neg neither, if_pos linked]
    split
    next same => rw [String.append_eq_left_iff.mp same]
    next => rw [dropFirst_append]

theorem Best.orLonger_twice (best : Best) (r : SharedRoot) : (best.orLonger r).orLonger r = best.orLonger r := by
  by_cases longer : (r.hostPath.length : Int) > best.2
  · rw [Best.orLonger, Best.orLonger, if_pos longer, if_neg (Int.lt_irrefl _)]
  · rw [Best.orLonger, Best.orLonger, if_neg longer, if_neg longer]

theorem contains_iff : Contains r std ↔ (decide (std = r.hostPath) || hasPrefix std (r.hostPath ++ "/")) = true ∨
    (decide (r.hostPath = "/private/tmp") && (decide (std = "/tmp") || hasPrefix std ("/tmp" ++ "/"))) = true ∨
    (decide (r.hostPath = "/tmp") && (decide (std = "/private/tmp") || hasPrefix std ("/private/tmp" ++ "/"))) = true := by
  rw [Bool.and_eq_true, Bool.and_eq_true, decide_eq_true_iff, decide_eq_true_iff, cover_iff, cover_iff, cover_iff]
  constructor
  · rintro ⟨rest, tail, same | ⟨root, same⟩ | ⟨root, same⟩⟩
    · exact .inl ⟨rest, tail, same⟩
    · exact .inr (.inl ⟨root, rest, tail, same⟩)
    · exact .inr (.inr ⟨root, rest, tail, same⟩)
  · rintro (⟨rest, tail, same⟩ | ⟨root, rest, tail, same⟩ | ⟨root, rest, tail, same⟩)
    · exact ⟨rest, tail, .inl same⟩
    · exact ⟨rest, tail, .inr (.inl ⟨root, same⟩)⟩
    · exact ⟨rest, tail, .inr (.inr ⟨root, same⟩)⟩

theorem consider_contains (best : Best) (contains : Contains r std) : consider std best r = best.orLonger r := by
  rw [contains_iff] at contains
  generalize cover : (decide (std = r.hostPath) || hasPrefix std (r.hostPath ++ "/")) = c at contains
  generalize linked :
    (decide (r.hostPath = "/private/tmp") && (decide (std = "/tmp") || hasPrefix std ("/tmp" ++ "/"))) = a at contains
  generalize other : (decide (r.hostPath = "/tmp") && (decide (std = "/private/tmp") || hasPrefix std ("/private/tmp" ++ "/"))) = o
    at contains
  have rounds : consider std best r = (best.orLongerIf c r |>.orLongerIf a r |>.orLongerIf o r) := by
    rw [← cover, ← linked, ← other]
    rfl
  rw [rounds]
  cases c <;> cases a <;> cases o <;> simp_all [Best.orLongerIf, Best.orLonger_twice]

theorem consider_apart (best : Best) (apart : ¬ Contains r std) : consider std best r = best := by
  rw [contains_iff, not_or, not_or] at apart
  obtain ⟨cover, linked, other⟩ := apart
  exact (if_neg other).trans ((if_neg linked).trans (if_neg cover))

theorem Longest.le {q : SharedRoot} (longest : Longest roots std r) (inside : q ∈ roots) (contains : Contains q std) :
    q.hostPath.length ≤ r.hostPath.length := by
  obtain ⟨before, behind, rfl, -, shorter, most⟩ := longest
  rcases List.mem_append.mp inside with inside | inside
  · exact Nat.le_of_lt (shorter q inside contains)
  · rcases List.mem_cons.mp inside with rfl | inside
    · exact Nat.le_refl _
    · exact most q inside contains

theorem Longest.mem (longest : Longest roots std r) : r ∈ roots := by
  obtain ⟨before, behind, rfl, -⟩ := longest
  exact List.mem_append_right _ List.mem_cons_self

theorem Longest.unique {q : SharedRoot} (one : Longest roots std r) (other : Longest roots std q) : r = q := by
  obtain ⟨before, behind, rfl, contains, shorter, most⟩ := one
  obtain ⟨before', behind', same, contains', shorter', most'⟩ := other
  rcases List.append_eq_append_iff.mp same with ⟨between, rfl, meet⟩ | ⟨between, rfl, meet⟩
  · cases between with
    | nil => exact (List.cons.inj meet).1
    | cons b between =>
      obtain ⟨rfl, rfl⟩ := List.cons.inj meet
      have strict := shorter' r (List.mem_append_right _ List.mem_cons_self) contains
      have weak := most q (List.mem_append_right _ List.mem_cons_self) contains'
      omega
  · cases between with
    | nil => exact (List.cons.inj meet).1.symm
    | cons b between =>
      obtain ⟨rfl, rfl⟩ := List.cons.inj meet
      have strict := shorter q (List.mem_append_right _ List.mem_cons_self) contains'
      have weak := most' r (List.mem_append_right _ List.mem_cons_self) contains
      omega

/-- One more root that is no longer. -/
theorem Longest.snoc {q : SharedRoot} (longest : Longest roots std r)
    (short : Contains q std → q.hostPath.length ≤ r.hostPath.length) : Longest (roots ++ [q]) std r := by
  obtain ⟨before, behind, rfl, contains, shorter, most⟩ := longest
  refine ⟨before, behind ++ [q], by rw [List.append_assoc, List.cons_append], contains, shorter, ?_⟩
  intro other inside
  rcases List.mem_append.mp inside with inside | inside
  · exact most other inside
  · exact List.mem_singleton.mp inside ▸ short

/-- What the loop over the shared roots has found among those it has seen. -/
def Found (std : String) (seen : List SharedRoot) : Best → Prop
  | (none, n) => n = -1 ∧ ∀ q ∈ seen, ¬ Contains q std
  | (some r, n) => n = r.hostPath.length ∧ Longest seen std r

theorem found_consider {seen : List SharedRoot} {best : Best} (found : Found std seen best) :
    Found std (seen ++ [r]) (consider std best r) := by
  obtain ⟨b, n⟩ := best
  by_cases contains : Contains r std
  · rw [consider_contains _ contains, Best.orLonger]
    split
    next longer =>
      refine ⟨rfl, seen, [], rfl, contains, ?_, nofun⟩
      intro q inside holds
      cases b with
      | none => exact absurd holds (found.2 q inside)
      | some b =>
        have most := found.2.le inside holds
        have length := found.1
        simp only at longer
        omega
    next short =>
      cases b with
      | none =>
        have none := found.1
        simp only at short
        omega
      | some b =>
        refine ⟨found.1, found.2.snoc fun _ => ?_⟩
        have length := found.1
        simp only at short
        omega
  · rw [consider_apart _ contains]
    cases b with
    | none =>
      refine ⟨found.1, fun q inside => ?_⟩
      rcases List.mem_append.mp inside with inside | inside
      · exact found.2 q inside
      · exact List.mem_singleton.mp inside ▸ contains
    | some b => exact ⟨found.1, found.2.snoc fun holds => absurd holds contains⟩

theorem found_loop {seen rs : List SharedRoot} {best : Best} (found : Found std seen best) :
    Found std (seen ++ rs) (rs.foldl (consider std) best) := by
  induction rs generalizing seen best with
  | nil => rwa [List.append_nil]
  | cons r rs ih =>
    have next := ih (found_consider (r := r) found)
    rwa [List.append_assoc] at next

theorem longest_iff (std : String) (roots : List SharedRoot) :
    (roots.foldl (consider std) (none, -1)).1 = some r ↔ Longest roots std r := by
  have found : Found std ([] ++ roots) (roots.foldl (consider std) (none, -1)) := found_loop ⟨rfl, nofun⟩
  rw [List.nil_append] at found
  generalize roots.foldl (consider std) (none, -1) = best at found ⊢
  obtain ⟨best, n⟩ := best
  cases best with
  | none =>
    refine iff_of_false nofun fun longest => ?_
    obtain ⟨-, -, -, contains, -⟩ := id longest
    exact found.2 r longest.mem contains
  | some b =>
    constructor
    · intro same
      cases same
      exact found.2
    · exact fun longest => congrArg some (found.2.unique longest)

theorem translateHostPath_iff : translateHostPath mac roots src = some guest ↔ hasPrefix src "/" = true ∧
    ∃ r rest, Longest roots (mac.standardized src) r ∧ Remainder r (mac.standardized src) rest ∧ guest = r.guestPath ++ rest := by
  unfold translateHostPath
  split
  next absolute =>
    constructor
    · intro translated
      obtain ⟨r, found, translated⟩ := Option.bind_eq_some_iff.mp translated
      obtain ⟨rest, left, same⟩ := Option.bind_eq_some_iff.mp translated
      have longest := (longest_iff _ _).mp found
      obtain ⟨-, -, -, ⟨rest', remains⟩, -⟩ := id longest
      cases (remainder_eq remains).symm.trans left
      cases same
      exact ⟨absolute, r, rest, longest, remains, rfl⟩
    · rintro ⟨-, r, rest, longest, remains, rfl⟩
      refine Option.bind_eq_some_iff.mpr ⟨r, (longest_iff _ _).mpr longest, ?_⟩
      exact Option.bind_eq_some_iff.mpr ⟨rest, remainder_eq remains, rfl⟩
  next relative => exact iff_of_false nofun fun translated => relative translated.1

end Harpoon.HostPaths
