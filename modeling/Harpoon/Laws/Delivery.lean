import Harpoon.Laws.GitCodec

/-!
# The delivery id of a poll

The id joins the repository's name, the incarnation of the application's registration and the commit with `:`, which
neither a name nor a commit has, so it tells them apart. But a delivery id has at most 128 bytes, and a name of 64
bytes with a commit of 64 digits does not fit.
-/

namespace Harpoon.Git

open Wire Control

variable {name name' commit commit' v : String} {k k' : Nat} {c : Char}

/-- The parts of the id. -/
def deliveryParts (name : String) (incarnation : Nat) (commit : String) : List String :=
  if incarnation = 0 then ["poll", name, commit] else ["poll", name, "r" ++ incarnation.repr, commit]

/-- The bytes that the incarnation and the separators take. -/
def deliveryOverhead (incarnation : Nat) : Nat := if incarnation = 0 then 6 else 8 + byteLen incarnation.repr

theorem pollDelivery_joined : pollDelivery name k commit = joined ':' (deliveryParts name k commit) := by
  unfold pollDelivery deliveryParts
  split
  · simp [joined, String.intercalate_cons_cons, String.append_assoc, ToString.toString]
  · have apart : ":r" = ":" ++ "r" := rfl
    simp only [joined, String.intercalate_cons_cons, String.intercalate_singleton, String.append_assoc,
      ToString.toString, String.singleton_eq_ofList]
    rw [apart, String.append_assoc]
    rfl

theorem byteLen_pollDelivery :
    byteLen (pollDelivery name k commit) = byteLen name + byteLen commit + deliveryOverhead k := by
  have poll : "poll:".utf8ByteSize = 5 := rfl
  have colon : ":".utf8ByteSize = 1 := rfl
  have next : ":r".utf8ByteSize = 2 := rfl
  unfold pollDelivery deliveryOverhead byteLen
  split
  · simp only [ToString.toString, String.utf8ByteSize_append]
    omega
  · simp only [ToString.toString, String.utf8ByteSize_append]
    omega

/-! ## Which ids are accepted -/

theorem checkDelivery_iff :
    checkDelivery v = .ok () ↔ v ≠ "" ∧ byteLen v ≤ maxToken ∧ ∀ c ∈ v.toList, tokenChar [':'] c = true := by
  unfold checkDelivery Control.token
  split
  next short =>
    refine iff_of_false nofun ?_
    rintro ⟨some, fits, _⟩
    rcases short with empty | long
    · exact some (String.isEmpty_iff.mp empty)
    · omega
  next sized =>
    have some : v ≠ "" := fun empty => sized (.inl (String.isEmpty_iff.mpr empty))
    have fits : byteLen v ≤ maxToken := Nat.le_of_not_lt fun long => sized (.inr long)
    split
    next c found =>
      have foreign := List.find?_some found
      have mem := List.mem_of_find?_eq_some found
      refine iff_of_false nofun ?_
      rintro ⟨_, _, chars⟩
      rw [chars c mem] at foreign
      cases foreign
    next none =>
      refine iff_of_true rfl ⟨some, fits, fun c mem => ?_⟩
      simpa using List.find?_eq_none.mp none c mem

theorem isCommit_chars (commits : isCommit commit = true) : ∀ c ∈ commit.toList, Config.tokenChar c = true := by
  intro c mem
  have all := List.all_eq_true.mp (Bool.and_eq_true _ _ ▸ commits : _ ∧ _).2 c mem
  simp only [Bool.or_eq_true, Bool.and_eq_true, decide_eq_true_eq, Char.le_def, UInt32.le_iff_toNat_le] at all
  have digits : ∀ n < 128, 48 ≤ n ∧ n ≤ 57 ∨ 97 ≤ n ∧ n ≤ 102 → Config.tokenChar (Char.ofNat n) = true := by decide
  have range : 48 ≤ c.toNat ∧ c.toNat ≤ 57 ∨ 97 ≤ c.toNat ∧ c.toNat ≤ 102 := all
  have digit := digits c.toNat (by omega) range
  rwa [Char.ofNat_toNat] at digit

theorem deliveryParts_chars (named : checkName name = .ok ()) (commits : isCommit commit = true) :
    ∀ f ∈ deliveryParts name k commit, ∀ c ∈ f.toList, Config.tokenChar c = true := by
  have poll : ∀ c ∈ "poll".toList, Config.tokenChar c = true := forall_mem_of_all (by decide)
  have incarnation : ∀ c ∈ ("r" ++ k.repr).toList, Config.tokenChar c = true := by
    intro c mem
    rw [String.toList_append, List.mem_append] at mem
    rcases mem with first | digit
    · cases List.mem_singleton.mp first
      decide
    · have isDigit := Nat.isDigit_of_mem_toDigits (by decide) (by decide) (Nat.toList_repr ▸ digit)
      simp [Config.tokenChar, Char.isAlphanum, isDigit]
  unfold deliveryParts
  split
  · exact List.forall_mem_cons.mpr ⟨poll, List.forall_mem_cons.mpr ⟨token_chars named,
      List.forall_mem_singleton.mpr (isCommit_chars commits)⟩⟩
  · exact List.forall_mem_cons.mpr ⟨poll, List.forall_mem_cons.mpr ⟨token_chars named,
      List.forall_mem_cons.mpr ⟨incarnation, List.forall_mem_singleton.mpr (isCommit_chars commits)⟩⟩⟩

theorem pollDelivery_chars (named : checkName name = .ok ()) (commits : isCommit commit = true) :
    ∀ c ∈ (pollDelivery name k commit).toList, tokenChar [':'] c = true := by
  intro c mem
  rw [pollDelivery_joined] at mem
  rcases mem_joined mem with rfl | ⟨f, part, inside⟩
  · decide
  · have plain := deliveryParts_chars named commits f part c inside
    unfold Config.tokenChar at plain
    rw [tokenChar, plain, Bool.true_or]

/-! ## What they name -/

theorem fields_pollDelivery (named : checkName name = .ok ()) (commits : isCommit commit = true) :
    fields ':' (pollDelivery name k commit) = deliveryParts name k commit := by
  rw [pollDelivery_joined]
  refine fields_joined ?_ (by unfold deliveryParts; split <;> exact List.cons_ne_nil _ _)
  intro f part colon
  cases deliveryParts_chars named commits f part ':' colon

/-- Different deliveries have different ids. -/
theorem pollDelivery_injective (named : checkName name = .ok ()) (commits : isCommit commit = true)
    (named' : checkName name' = .ok ()) (commits' : isCommit commit' = true)
    (same : pollDelivery name k commit = pollDelivery name' k' commit') :
    name = name' ∧ k = k' ∧ commit = commit' := by
  have parts : deliveryParts name k commit = deliveryParts name' k' commit' := by
    rw [← fields_pollDelivery named commits, ← fields_pollDelivery named' commits', same]
  unfold deliveryParts at parts
  split at parts <;> split at parts
  next first first' =>
    cases parts
    exact ⟨rfl, first.trans first'.symm, rfl⟩
  next => cases parts
  next => cases parts
  next later later' =>
    simp only [List.cons.injEq, true_and, and_true] at parts
    obtain ⟨names, incarnations, commits⟩ := parts
    have digits : k.repr = k'.repr := (String.append_right_inj "r").mp incarnations
    have incarnation : k = k' := by
      refine toDigits_inj (by decide) (by decide : 10 ≤ 16) ?_
      rw [← Nat.toList_repr, ← Nat.toList_repr, digits]
    exact ⟨names, incarnation, commits⟩

/-- **The id of a poll** is accepted, and told from the id of every other delivery, exactly when name, incarnation and
commit fit in a token. -/
theorem pollDelivery_ok_iff (named : checkName name = .ok ()) (commits : isCommit commit = true) :
    (checkDelivery (pollDelivery name k commit) = .ok () ∧
      ∀ name' k' commit', checkName name' = .ok () → isCommit commit' = true →
        pollDelivery name' k' commit' = pollDelivery name k commit → name' = name ∧ k' = k ∧ commit' = commit) ↔
      byteLen name + byteLen commit + deliveryOverhead k ≤ maxToken := by
  rw [← byteLen_pollDelivery]
  constructor
  · rintro ⟨accepted, _⟩
    exact (checkDelivery_iff.mp accepted).2.1
  · intro fits
    have some : pollDelivery name k commit ≠ "" := by
      intro empty
      have size : byteLen (pollDelivery name k commit) = 0 := by rw [empty]; rfl
      rw [byteLen_pollDelivery, deliveryOverhead] at size
      split at size <;> omega
    refine ⟨checkDelivery_iff.mpr ⟨some, fits, pollDelivery_chars named commits⟩, ?_⟩
    intro name' k' commit' named' commits' same
    exact pollDelivery_injective named' commits' named commits same

theorem pollDelivery_ok_shop :
    checkDelivery (pollDelivery "shop" 0 (String.ofList (List.replicate 40 'a'))) = .ok () ∧
      ∀ name' k' commit', checkName name' = .ok () → isCommit commit' = true →
        pollDelivery name' k' commit' = pollDelivery "shop" 0 (String.ofList (List.replicate 40 'a')) →
        name' = "shop" ∧ k' = 0 ∧ commit' = String.ofList (List.replicate 40 'a') :=
  (pollDelivery_ok_iff (by rfl) (by decide)).mpr (by decide)

/-- The longest name with the longer of the two hashes makes an id that is refused. -/
theorem pollDelivery_too_long :
    ¬ ∀ name k commit, checkName name = .ok () → isCommit commit = true →
      checkDelivery (pollDelivery name k commit) = .ok () ∧
        ∀ name' k' commit', checkName name' = .ok () → isCommit commit' = true →
          pollDelivery name' k' commit' = pollDelivery name k commit → name' = name ∧ k' = k ∧ commit' = commit := by
  intro always
  have named : checkName (String.ofList (List.replicate 64 'a')) = .ok () := by rfl
  have commits : isCommit (String.ofList (List.replicate 64 'a')) = true := by decide
  have fits := (checkDelivery_iff.mp (always _ 0 _ named commits).1).2.1
  rw [byteLen_pollDelivery] at fits
  exact absurd fits (by decide)

end Harpoon.Git
