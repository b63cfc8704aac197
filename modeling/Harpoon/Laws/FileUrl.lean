import Harpoon.Laws.Paths

/-!
# The path of a file URL

Decoding the escapes of a URL, as a relation between the bytes before and after, and the engine's reading against it:
each accepted URL is decoded once, and the check is about what comes out. What has no encoded `/` and decodes to a clean
path is accepted, so every clean path has a URL.
-/

namespace Harpoon.Git

open Deploy.Envvars (isControl)
open Desktop (ord written)
open Wire (Bytes utf8 digitValue)

/-- The second text is the first with its escapes decoded once. Only the bytes that `may` allows are escaped. -/
inductive Decodes (may : UInt8 → Prop) : Bytes → Bytes → Prop where
  | done : Decodes may [] []
  | plain {b : UInt8} {us bs : Bytes} (other : b ≠ 0x25) (rest : Decodes may us bs) : Decodes may (b :: us) (b :: bs)
  | escape {h l : UInt8} {high low : Nat} {us bs : Bytes} (first : digitValue (Char.ofNat h.toNat) = some high)
      (second : digitValue (Char.ofNat l.toNat) = some low) (allowed : may (UInt8.ofNat (high * 16 + low)))
      (rest : Decodes may us bs) : Decodes may (0x25 :: h :: l :: us) (UInt8.ofNat (high * 16 + low) :: bs)

/-- The percent-decoding of a text. -/
def PercentDecodes (us bs : Bytes) : Prop := Decodes (fun _ => True) us bs

/-- Absolute, with no control character and without the components `.` and `..`. -/
structure CleanPath (p : String) : Prop where
  absolute : p.toList.head? = some '/'
  plain : ∀ c ∈ p.toList, isControl c = false
  components : ∀ c ∈ Wire.fields '/' p, c ≠ "." ∧ c ≠ ".."

/-- A path with every byte escaped that is neither unreserved in a URL nor a `/`. -/
def percentEncoded (p : String) : String := String.ofList (written p)

variable {may may' : UInt8 → Prop} {us bs bs' : Bytes} {url p : String}

theorem Decodes.mono (weaker : ∀ b, may b → may' b) (decodes : Decodes may us bs) : Decodes may' us bs := by
  induction decodes with
  | done => exact .done
  | plain other _ ih => exact .plain other ih
  | escape first second allowed _ ih => exact .escape first second (weaker _ allowed) ih

/-- There is one decoding. -/
theorem Decodes.unique (decodes : Decodes may us bs) (decodes' : Decodes may' us bs') : bs = bs' := by
  induction decodes generalizing bs' with
  | done =>
    cases decodes'
    rfl
  | plain other _ ih =>
    cases decodes' with
    | plain _ rest => rw [ih rest]
    | escape => exact absurd rfl other
  | escape first second _ _ ih =>
    cases decodes' with
    | plain other _ => exact absurd rfl other
    | escape first' second' _ rest =>
      cases first.symm.trans first'
      cases second.symm.trans second'
      rw [ih rest]

/-- The engine decodes what has no encoded `/`. -/
theorem percentDecoded_iff : percentDecoded us = .ok bs ↔ Decodes (· ≠ 0x2F) us bs := by
  constructor
  · intro read
    fun_induction percentDecoded us generalizing bs with
    | case1 =>
      cases read
      exact .done
    | case2 b rest other ih =>
      cases tail : percentDecoded rest with
      | error e =>
        rw [tail] at read
        cases read
      | ok rest' =>
        rw [tail] at read
        cases read
        exact .plain other (ih tail)
    | case3 => cases read
    | case4 b escape h l rest high low second first byte slash =>
      rename_i ih
      obtain rfl : b = 0x25 := Decidable.not_not.mp escape
      cases tail : percentDecoded rest with
      | error e =>
        rw [tail] at read
        cases read
      | ok rest' =>
        rw [tail] at read
        cases read
        exact .escape first second slash (ih tail)
    | case5 => cases read
    | case6 => cases read
  · intro decodes
    induction decodes with
    | done => rfl
    | plain other _ ih =>
      rw [percentDecoded.eq_def]
      simp only [other, ne_eq, not_false_eq_true, if_true, ih]
      rfl
    | escape first second allowed _ ih =>
      rw [percentDecoded.eq_def]
      simp only [ne_eq, not_true_eq_false, if_false, first, second, if_neg allowed, ih]
      rfl

theorem checkDecoded_clean : checkDecoded p = .ok () ↔ CleanPath p := by
  have dots : ((Wire.fields '/' p).any fun c => c = ".." || c = ".") = false ↔
      ∀ c ∈ Wire.fields '/' p, c ≠ "." ∧ c ≠ ".." := by
    simp [List.any_eq_false, and_comm]
  rw [Desktop.checkDecoded_iff, dots, startsWith, decide_eq_true_eq]
  constructor
  · rintro ⟨plain, absolute, components⟩
    exact ⟨absolute, plain, components⟩
  · rintro ⟨absolute, plain, components⟩
    exact ⟨plain, absolute, components⟩

/-- What the engine accepts: the URLs without an encoded `/` that decode to a clean path. -/
theorem fileUrlPath_clean : fileUrlPath url = .ok p ↔ Decodes (· ≠ 0x2F) (utf8 url) (utf8 p) ∧ CleanPath p := by
  rw [Desktop.fileUrlPath_iff, percentDecoded_iff, checkDecoded_clean]

/-- **The path of a file URL** is its one decoding and a clean path, and every clean path is what its encoding is
read as. -/
theorem fileUrlPath_decodes_once :
    (∀ url p, fileUrlPath url = .ok p → (∀ bs, PercentDecodes (utf8 url) bs ↔ bs = utf8 p) ∧ CleanPath p) ∧
      ∀ p, CleanPath p → fileUrlPath (percentEncoded p) = .ok p ∧ PercentDecodes (utf8 (percentEncoded p)) (utf8 p) := by
  have decoding : ∀ {url p}, fileUrlPath url = .ok p → PercentDecodes (utf8 url) (utf8 p) := fun accepted =>
    (fileUrlPath_clean.mp accepted).1.mono fun _ _ => trivial
  constructor
  · intro url p accepted
    refine ⟨fun bs => ⟨fun decodes => decodes.unique (decoding accepted), ?_⟩, (fileUrlPath_clean.mp accepted).2⟩
    rintro rfl
    exact decoding accepted
  · intro p clean
    have accepted : fileUrlPath (percentEncoded p) = .ok p := Desktop.fileUrlPath_written (checkDecoded_clean.mpr clean)
    exact ⟨accepted, decoding accepted⟩

theorem fileUrlPath_decodes_once_percent :
    CleanPath "/50% a" ∧ percentEncoded "/50% a" = "/50%25%20a" ∧ fileUrlPath "/50%25%20a" = .ok "/50% a" ∧
      ∀ bs, PercentDecodes (utf8 "/50%25%20a") bs ↔ bs = utf8 "/50% a" := by
  have clean : CleanPath "/50% a" :=
    ⟨by decide, Wire.forall_mem_of_all (by decide), by unfold Wire.fields; decide⟩
  have encoded : percentEncoded "/50% a" = "/50%25%20a" := by decide +kernel
  have read : fileUrlPath "/50%25%20a" = .ok "/50% a" := encoded ▸ (fileUrlPath_decodes_once.2 "/50% a" clean).1
  exact ⟨clean, encoded, read, (fileUrlPath_decodes_once.1 _ _ read).1⟩

end Harpoon.Git
