import Harpoon.Laws.Json

/-!
# What is written is read back

What the writer makes of a value of integers is a text of RFC 8259 for that value, and so the reader gives the value back.
-/

namespace Harpoon.Docker.JsonText

open Wire (Double)
open Json (integerBound integer? escaped writeStr decimal write writeItems writeMembers toJson)

/-- The double of an integer below the bound. -/
def Whole (x : Double) : Prop := ∃ n : Int, n.natAbs < integerBound ∧ Double.nearest (n < 0) n.natAbs 1 = some x

/-- Of at most so many levels, and all its numbers are integers below the bound. -/
def Regular : Nat → Json → Prop
  | 0 => fun _ => False
  | levels + 1 => fun
    | .num x => Whole x
    | .arr items => ∀ v ∈ items, Regular levels v
    | .obj members => ∀ m ∈ members, Regular levels m.2
    | _ => True

section

variable {display : Double → String} {x : Double} {n : Int} {cs s : List Char} {levels : Nat}

theorem blank_nil : Blank [] := fun _ mem => absurd mem List.not_mem_nil

/-! ## Numbers -/

theorem signed_natAbs : Double.signed (n < 0) n.natAbs = n := by
  rw [Double.signed]
  split
  next negative =>
    have := of_decide_eq_true negative
    omega
  next positive =>
    have := of_decide_eq_false (Bool.eq_false_iff.mpr positive)
    omega

theorem integer_nearest (small : n.natAbs < integerBound) (is : Double.nearest (n < 0) n.natAbs 1 = some x) :
    integer? x = some n := by
  have bits : n.natAbs < Nat.pow 2 53 := Nat.lt_trans small (by decide)
  have double : ∃ y, Double.nearest (n < 0) n.natAbs 1 = some y ∧ y.toInt? = some (Double.signed (n < 0) n.natAbs) :=
    Double.nearest_one bits
  obtain ⟨y, nearest, whole⟩ := double
  rw [is] at nearest
  cases nearest
  rw [integer?, whole, signed_natAbs]
  exact Option.filter_some_pos (decide_eq_true small)

theorem toDigits_digits {n : Nat} : Digits (Nat.toDigits 10 n) :=
  ⟨Nat.toDigits_ne_nil, fun _ mem => Nat.isDigit_of_mem_toDigits (by decide) (by decide) mem⟩

theorem toDigits_plain {n : Nat} : Plain (Nat.toDigits 10 n) := by
  cases n with
  | zero => exact .inl rfl
  | succ n => exact .inr (Wire.head_toDigits (Nat.succ_pos n))

theorem decimal_number (is : Double.nearest (n < 0) n.natAbs 1 = some x) : Number .strict (decimal n) x := by
  have value : Rules.strict.double (n < 0) (valueOf (Nat.toDigits 10 n.natAbs ++ [])) (0 - ([] : List Char).length) x := by
    have read : valueOf (Nat.toDigits 10 n.natAbs ++ []) = n.natAbs := by
      rw [List.append_nil, valueOf, Wire.readDigits_toDigits (by decide) (by decide)]
      rfl
    show Double.ofDecimal _ _ _ = some x
    rw [read, Double.ofDecimal, if_pos (by decide)]
    show Double.nearest _ (n.natAbs * 1) 1 = some x
    rw [Nat.mul_one]
    exact is
  have number := Number.mk toDigits_digits toDigits_plain .none .none value
  have spelled : (if decide (n < 0) then ['-'] else []) ++ Nat.toDigits 10 n.natAbs ++ [] ++ [] = decimal n := by
    rw [List.append_nil, List.append_nil, decimal]
    by_cases negative : n < 0
    · rw [if_pos (decide_eq_true negative), if_pos negative]
      rfl
    · rw [if_neg (by rw [decide_eq_false negative]; exact Bool.false_ne_true), if_neg negative]
      rfl
  exact spelled ▸ number

/-! ## Strings -/

theorem control_escape {c : Char} (control : c.toNat < 0x20) :
    Escape .strict ('u' :: (Wire.hexPadded 4 c.toNat).toList) c := by
  have hex : Hex4 (Wire.hexPadded 4 c.toNat).toList c.toNat :=
    ⟨Wire.length_hexPadded (by decide) (Nat.lt_trans control (by decide)), Wire.readDigits_hexPadded⟩
  have high : isHigh c.toNat = false := Bool.eq_false_iff.mpr fun high => by
    have := isHigh_iff.mp high
    omega
  have low : isLow c.toNat = false := Bool.eq_false_iff.mpr fun low => by
    have := isLow_iff.mp low
    omega
  have escape : Escape .strict _ (Char.ofNat c.toNat) := .unit hex high low
  rw [Char.ofNat_toNat] at escape
  exact escape

/-- A character as it is written stands for that character. -/
theorem escaped_chars (c : Char) (rest : Chars .strict cs s) : Chars .strict (escaped c ++ cs) (c :: s) := by
  have letter {d : Char} (known : (d, c) ∈ escapes) : Chars .strict (['\\', d] ++ cs) (c :: s) := .escape (.letter known) rest
  rw [escaped]
  split
  next same => exact letter (by rw [same]; decide)
  next quote =>
  split
  next same => exact letter (by rw [same]; decide)
  next backslash =>
  split
  next same => exact letter (by rw [same]; decide)
  split
  next same => exact letter (by rw [same]; decide)
  split
  next same => exact letter (by rw [same]; decide)
  split
  next control => exact .escape (control_escape control) rest
  next control => exact .plain quote backslash (Nat.le_of_not_lt control) rest

theorem flatMap_escaped (s : List Char) : Chars .strict (s.flatMap escaped) s := by
  induction s with
  | nil => exact .nil
  | cons c s ih => exact escaped_chars c ih

theorem writeStr_quoted (s : String) : Quoted .strict (writeStr s) s := by
  have quoted := Quoted.mk (flatMap_escaped s.toList)
  rw [String.ofList_toList] at quoted
  exact quoted

/-! ## Values -/

theorem one_series {α : Type} {element : List Char → α → Prop} {v : α} (is : element cs v) : Series element cs [v] := by
  have one := Series.one blank_nil is blank_nil
  rw [List.nil_append, List.append_nil] at one
  exact one

theorem more_series {α : Type} {element : List Char → α → Prop} {v : α} {vs : List α} (is : element cs v)
    (rest : Series element s vs) : Series element (cs ++ ',' :: s) (v :: vs) := by
  have more := Series.more blank_nil is blank_nil rest
  rw [List.nil_append, List.append_nil] at more
  exact more

theorem items_listed {element : List Char → Json → Prop} :
    ∀ items, (∀ v ∈ items, element (write display v) v) → Listed element (writeItems display items) items
  | [], _ => .none blank_nil
  | v :: vs, each => by
    refine .some ?_
    induction vs generalizing v with
    | nil => exact one_series (each v List.mem_cons_self)
    | cons w vs ih =>
      exact more_series (each v List.mem_cons_self) (ih w fun u mem => each u (List.mem_cons_of_mem _ mem))

theorem members_listed {element : List Char → Json → Prop} :
    ∀ members : List (String × Json), (∀ m ∈ members, element (write display m.2) m.2) →
      Listed (Member .strict element) (writeMembers display members) members := by
  have member {k : String} {v : Json} (is : element (write display v) v) :
      Member .strict element (writeStr k ++ ':' :: write display v) (k, v) := by
    have mk := Member.mk (writeStr_quoted k) blank_nil blank_nil is
    rw [List.append_nil] at mk
    simpa using mk
  intro members each
  cases members with
  | nil => exact .none blank_nil
  | cons m ms =>
    refine .some ?_
    induction ms generalizing m with
    | nil => exact one_series (member (each m List.mem_cons_self))
    | cons m' ms ih =>
      exact more_series (member (each m List.mem_cons_self)) (ih m' fun u mem => each u (List.mem_cons_of_mem _ mem))

/-- What is written is a value of the grammar. -/
theorem write_value (levels : Nat) (v : Json) (regular : Regular levels v) : Value .strict levels (write display v) v := by
  induction levels generalizing v with
  | zero => exact regular.elim
  | succ levels ih =>
    cases v with
    | null => rw [write]; exact .null
    | bool b =>
      cases b with
      | true => rw [write]; exact .true
      | false => rw [write]; exact .false
    | num x =>
      obtain ⟨n, small, is⟩ := regular
      rw [write, integer_nearest small is]
      exact .num (decimal_number is)
    | str s => rw [write]; exact .str (writeStr_quoted s)
    | arr items => rw [write]; exact .arr (items_listed items fun v mem => ih v (regular v mem))
    | obj members => rw [write]; exact .obj (members_listed members fun m mem => ih m.2 (regular m mem))

theorem toJson_text (v : Json) (regular : Regular (maxDepth + 1) v) : Text .strict (maxDepth + 1) (toJson display v).toList v := by
  refine ⟨[], write display v, [], ?_, blank_nil, write_value _ v regular, blank_nil⟩
  rw [toJson, String.toList_ofList, List.nil_append, List.append_nil]

theorem parse_toJson (display : Double → String) (v : Json) (regular : Regular (maxDepth + 1) v) :
    Json.parse (toJson display v) = .ok v :=
  parse_iff.mpr ((toJson_text v regular).mono strict_lenient)

/-- A negative integer between strings with a quote, a control character and a character beyond the first plane. -/
theorem parse_toJson_sample :
    Json.parse (toJson (fun _ => "") (.obj [("a\"\x01", .arr [.num ⟨-6755399441055744, -51⟩, .str "😀"])])) =
      .ok (.obj [("a\"\x01", .arr [.num ⟨-6755399441055744, -51⟩, .str "😀"])]) := by
  refine parse_toJson _ _ fun m mem => ?_
  cases List.mem_singleton.mp mem
  intro v mem
  rcases List.mem_cons.mp mem with rfl | mem
  · exact ⟨-3, by decide, by decide⟩
  · cases List.mem_singleton.mp mem
    trivial

end

end Harpoon.Docker.JsonText
