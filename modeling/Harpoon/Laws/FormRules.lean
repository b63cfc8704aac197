import Harpoon.Desktop.Forms

/-!
# The rules of the forms

The forms test names and values before anything is sent, in UTF-16; the engine tests them again, by character. Of names
they say the same. Of values the engine refuses the control characters from U+0080 to U+009F too, which the form lets through.
-/

namespace Harpoon.Forms

open Wire (utf8 utf8_eq)
open Deploy.Envvars (checkName checkValue isControl isInitial isFollowing)

section

variable {p : Nat → Bool} {s name value : String} {c : Char} {cs : List Char}

/-! ## Code units -/

/-- Outside ASCII no code unit satisfies the test. -/
def Ascii (p : Nat → Bool) : Prop := ∀ u, 128 ≤ u → p u = false

theorem unitsOf_cases (c : Char) : unitsOf c = [c.toNat] ∨ ∃ u v, unitsOf c = [u, v] ∧ 128 ≤ u ∧ 128 ≤ v ∧ 128 ≤ c.toNat := by
  unfold unitsOf
  split
  · exact .inl rfl
  · exact .inr ⟨_, _, rfl, by omega, by omega, by omega⟩

theorem any_units (ascii : Ascii p) (s : String) : (units s).any p = s.toList.any fun c => p c.toNat := by
  rw [units, List.any_flatMap]
  refine List.any_congr rfl fun c => ?_
  rcases unitsOf_cases c with one | ⟨u, v, two, high, high', all⟩
  · rw [one, List.any_cons, List.any_nil, Bool.or_false]
  · rw [two, List.any_cons, List.any_cons, List.any_nil, ascii u high, ascii v high', ascii _ all]
    rfl

theorem all_units (ascii : Ascii p) (s : String) : (units s).all p = s.toList.all fun c => p c.toNat := by
  rw [units, List.all_flatMap]
  refine List.all_congr rfl fun c => ?_
  rcases unitsOf_cases c with one | ⟨u, v, two, high, high', all⟩
  · rw [one, List.all_cons, List.all_nil, Bool.and_true]
  · rw [two, List.all_cons, List.all_cons, List.all_nil, ascii u high, ascii _ all]
    rfl

theorem head_units (ascii : Ascii p) (s : String) : (units s).head?.any p = s.toList.head?.any fun c => p c.toNat := by
  rw [units]
  cases s.toList with
  | nil => rfl
  | cons c cs =>
    rw [List.flatMap_cons]
    rcases unitsOf_cases c with one | ⟨u, v, two, high, high', all⟩
    · rw [one]
      rfl
    · rw [two]
      show p u = p c.toNat
      rw [ascii u high, ascii _ all]

/-- A text of ASCII begins another one as code units if it does as characters. -/
theorem isPrefixOf_units (ascii : ∀ c ∈ cs, c.toNat < 128) (ds : List Char) :
    (cs.flatMap unitsOf).isPrefixOf (ds.flatMap unitsOf) = cs.isPrefixOf ds := by
  induction cs generalizing ds with
  | nil => cases ds <;> rfl
  | cons c cs ih =>
    have low := ascii c List.mem_cons_self
    have one : unitsOf c = [c.toNat] := if_pos (by omega)
    cases ds with
    | nil =>
      rw [List.flatMap_cons, one]
      rfl
    | cons d ds =>
      rw [List.flatMap_cons, List.flatMap_cons, one]
      rcases unitsOf_cases d with one' | ⟨u, v, two, high, high', all⟩
      · rw [one']
        show (c.toNat == d.toNat && (cs.flatMap unitsOf).isPrefixOf (ds.flatMap unitsOf)) = (c == d && cs.isPrefixOf ds)
        rw [ih fun e mem => ascii e (List.mem_cons_of_mem _ mem)]
        congr 1
        rw [Bool.eq_iff_iff, beq_iff_eq, beq_iff_eq]
        exact Char.toNat_inj
      · rw [two]
        have unit : (c.toNat == u) = false := beq_eq_false_iff_ne.mpr (by omega)
        have char : (c == d) = false := beq_eq_false_iff_ne.mpr fun same => by
          rw [same] at low
          omega
        show (c.toNat == u && _) = (c == d && _)
        rw [unit, char]
        rfl

theorem length_utf8 (s : String) : (utf8 s).length = s.utf8ByteSize := rfl

/-! ## Names -/

theorem stripPrefix_isSome (p s : String) : (Wire.stripPrefix p s).isSome = p.toList.isPrefixOf s.toList := by
  have found : ∀ cs ds : List Char, (cs.isPrefixOf? ds).isSome = cs.isPrefixOf ds := by
    intro cs
    induction cs with
    | nil => intro ds; rfl
    | cons c cs ih =>
      intro ds
      cases ds with
      | nil => rfl
      | cons d ds =>
        show (if c == d then cs.isPrefixOf? ds else none).isSome = (c == d && cs.isPrefixOf ds)
        split
        · next same => rw [ih, same, Bool.true_and]
        · next other => rw [Bool.eq_false_iff.mpr other]; rfl
  rw [Wire.stripPrefix, Option.isSome_map, found]

theorem isLetterUnit_eq (c : Char) : isLetterUnit c.toNat = c.isAlpha := by
  have alpha : c.isAlpha = (decide (c.val ≥ 'A'.val ∧ c.val ≤ 'Z'.val) ||
      (decide (c.val ≥ 'a'.val) && decide (c.val ≤ 'z'.val))) := rfl
  rw [alpha, Bool.decide_and, isLetterUnit]
  rfl

theorem isDigitUnit_eq (c : Char) : isDigitUnit c.toNat = c.isDigit := rfl

theorem underscore_eq (c : Char) : decide (c.toNat = 95) = decide (c = '_') :=
  decide_eq_decide.mpr ⟨fun same => Char.toNat_inj.mp same, fun same => congrArg Char.toNat same⟩

theorem isInitial_eq (c : Char) : (isLetterUnit c.toNat || decide (c.toNat = 95)) = isInitial c := by
  rw [isLetterUnit_eq, underscore_eq]
  rfl

theorem isFollowing_eq (c : Char) : (isLetterUnit c.toNat || isDigitUnit c.toNat || decide (c.toNat = 95)) = isFollowing c := by
  rw [isLetterUnit_eq, isDigitUnit_eq, underscore_eq]
  rfl

/-- What a name must be. -/
def GoodName (name : String) : Prop :=
  name.utf8ByteSize ≤ maxNameBytes ∧ name.toList.head?.any isInitial = true ∧ name.toList.all isFollowing = true ∧
    reservedEnvPrefix.toList.isPrefixOf name.toList = false

theorem variableName_iff (some_ : name ≠ "") : variableNameProblem name = none ↔ GoodName name := by
  have initial : (units name).head?.any (fun u => isLetterUnit u || u = 95) = name.toList.head?.any isInitial := by
    rw [head_units fun u high => by simp [isLetterUnit]; omega]
    simp only [isInitial_eq]
  have following : (units name).all (fun u => isLetterUnit u || isDigitUnit u || u = 95) = name.toList.all isFollowing := by
    rw [all_units fun u high => by simp [isLetterUnit, isDigitUnit]; omega]
    simp only [isFollowing_eq]
  have reserved : (units reservedEnvPrefix).isPrefixOf (units name) = reservedEnvPrefix.toList.isPrefixOf name.toList :=
    isPrefixOf_units (Wire.forall_mem_of_all (by decide)) _
  rw [variableNameProblem, if_neg some_, initial, following, reserved, length_utf8, GoodName]
  split
  · next long => exact iff_of_false nofun fun good => by omega
  · next short =>
    split
    · next wrong => exact iff_of_false nofun fun good => by simp [good.2.1] at wrong
    · next right =>
      split
      · next wrong => exact iff_of_false nofun fun good => by simp [good.2.2.1] at wrong
      · next right' =>
        split
        · next taken => exact iff_of_false nofun fun good => by simp [good.2.2.2] at taken
        · next free => exact iff_of_true rfl ⟨by omega, by simpa using right, by simpa using right', Bool.eq_false_iff.mpr free⟩

theorem refused {ε α : Type} {e : ε} {a : α} : (Except.error e : Except ε α) ≠ .ok a := fun same => by cases same

theorem checkName_iff (some_ : name ≠ "") : checkName name = .ok () ↔ GoodName name := by
  have shape : (name.toList.head?.any isInitial && (name.toList.drop 1).all isFollowing) =
      (name.toList.head?.any isInitial && name.toList.all isFollowing) := by
    cases name.toList with
    | nil => rfl
    | cons c cs =>
      show (isInitial c && cs.all isFollowing) = (isInitial c && (isFollowing c && cs.all isFollowing))
      cases initial : isInitial c with
      | false => rfl
      | true =>
        have goes : isFollowing c = true := by
          simp only [isInitial, Bool.or_eq_true] at initial
          simp only [isFollowing, Char.isAlphanum, Bool.or_eq_true]
          rcases initial with alpha | underscore
          · exact .inl (.inl alpha)
          · exact .inr underscore
        rw [goes, Bool.true_and, Bool.true_and]
  rw [checkName, if_neg (by simpa using some_), shape, stripPrefix_isSome, GoodName]
  split
  · next long => exact iff_of_false refused fun good => absurd long (Nat.not_lt.mpr good.1)
  · next short =>
    split
    · next wrong => exact iff_of_false refused fun good => by simp [good.2.1, good.2.2.1] at wrong
    · next right =>
      rw [Bool.not_eq_true', Bool.not_eq_false, Bool.and_eq_true] at right
      split
      · next taken =>
        refine iff_of_false refused fun good => ?_
        rw [show Deploy.Envvars.reservedPrefix = reservedEnvPrefix from rfl, good.2.2.2] at taken
        cases taken
      · next free => exact iff_of_true rfl ⟨Nat.not_lt.mp short, right.1, right.2, Bool.eq_false_iff.mpr free⟩

/-! ## Values -/

/-- A control character of ASCII. -/
def isLowControl (c : Char) : Bool := c.toNat < 32 || c.toNat = 127

/-- A control character that the form does not look for. -/
def isHighControl (c : Char) : Bool := 128 ≤ c.toNat && c.toNat < 160

theorem hasControl_eq (s : String) : hasControl s = s.toList.any isLowControl := by
  rw [hasControl, any_units fun u high => by simp [isControlUnit]; omega]
  refine List.any_congr rfl fun c => ?_
  rw [isControlUnit, isLowControl, Bool.eq_iff_iff]
  simp only [Bool.or_eq_true, decide_eq_true_iff]
  omega

theorem isControl_eq (c : Char) : isControl c = (isLowControl c || isHighControl c) := by
  rw [isControl, isLowControl, isHighControl, Bool.eq_iff_iff]
  simp only [Bool.or_eq_true, Bool.and_eq_true, decide_eq_true_iff]
  omega

theorem configValue_iff :
    configValueProblem value = none ↔ value.utf8ByteSize ≤ maxValueBytes ∧ value.toList.any isLowControl = false := by
  rw [configValueProblem, length_utf8, hasControl_eq]
  split
  · next long => exact iff_of_false nofun fun good => by omega
  · next short =>
    split
    · next control => exact iff_of_false nofun fun good => by simp [good.2] at control
    · next plain => exact iff_of_true rfl ⟨by omega, Bool.eq_false_iff.mpr plain⟩

theorem checkValue_iff : checkValue name value = .ok () ↔
    value.utf8ByteSize ≤ maxValueBytes ∧ value.toList.any isLowControl = false ∧ value.toList.any isHighControl = false := by
  have controls : value.toList.find? isControl = none ↔
      value.toList.any isLowControl = false ∧ value.toList.any isHighControl = false := by
    simp only [List.find?_eq_none, List.any_eq_false, isControl_eq, Bool.or_eq_true, not_or]
    exact ⟨fun all => ⟨fun c mem => (all c mem).1, fun c mem => (all c mem).2⟩, fun both c mem => ⟨both.1 c mem, both.2 c mem⟩⟩
  rw [← controls, checkValue]
  split
  · next long => exact iff_of_false nofun fun good => absurd long (Nat.not_lt.mpr good.1)
  · next short =>
    cases found : value.toList.find? isControl with
    | none => exact iff_of_true rfl ⟨Nat.not_lt.mp short, rfl⟩
    | some c => exact iff_of_false nofun fun good => by cases good.2

/-- On names the two rules agree. On values they agree exactly when the value is too long or has a control character of
ASCII, which both refuse, or has none of the control characters outside. -/
theorem rules_agree (name value : String) :
    (name ≠ "" → (variableNameProblem name = none ↔ checkName name = .ok ())) ∧
      ((configValueProblem value = none ↔ checkValue name value = .ok ()) ↔
        maxValueBytes < value.utf8ByteSize ∨ value.toList.any isLowControl = true ∨ value.toList.any isHighControl = false) := by
  refine ⟨fun some_ => (variableName_iff some_).trans (checkName_iff some_).symm, ?_⟩
  rw [configValue_iff, checkValue_iff]
  constructor
  · intro agree
    rcases Nat.lt_or_ge maxValueBytes value.utf8ByteSize with long | short
    · exact .inl long
    · cases low : value.toList.any isLowControl with
      | true => exact .inr (.inl rfl)
      | false => exact .inr (.inr (agree.mp ⟨short, low⟩).2.2)
  · rintro (long | low | high)
    · exact iff_of_false (fun good => by omega) fun good => by omega
    · rw [low]
      exact iff_of_false (fun good => by cases good.2) fun good => by cases good.2.1
    · exact ⟨fun good => ⟨good.1, good.2, high⟩, fun good => ⟨good.1, good.2.1⟩⟩

theorem rules_agree_sample : variableNameProblem "A_1" = none ↔ checkName "A_1" = .ok () := (rules_agree "A_1" "").1 (by decide)

/-- The next-line character passes the form, and the engine refuses it. -/
theorem next_line_disagrees : configValueProblem "\u0085" = none ∧ (checkValue "A" "\u0085").toOption = none := by decide

end

end Harpoon.Forms
