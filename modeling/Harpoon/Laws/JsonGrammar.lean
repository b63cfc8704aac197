import Harpoon.Docker.Json

/-!
# The grammar of JSON

RFC 8259 with the value it gives to each text, over what a reader may take in its own way: the digits of an integer part, the four
of an escape, the double for a decimal number, and a surrogate that stands alone. A reader that takes more reads a greater grammar.
-/

namespace Harpoon.Docker.JsonText

open Wire (Double)

/-! ## The grammar -/

/-- What is left to a reader. -/
structure Rules where
  /-- The digits of an integer part. -/
  int : List Char → Prop
  /-- Four characters, as a number. -/
  hex : List Char → Nat → Prop
  /-- The double for a number: whether it is negative, its digits, and how many powers of ten. -/
  double : Bool → Nat → Int → Double → Prop
  /-- The character for a surrogate that stands alone. -/
  lone : Nat → Char → Prop

def Digits (ds : List Char) : Prop := ds ≠ [] ∧ ∀ c ∈ ds, c.isDigit = true

def Blank (cs : List Char) : Prop := ∀ c ∈ cs, isWs c = true

inductive Fraction : List Char → List Char → Prop where
  | none : Fraction [] []
  | some {ds : List Char} (digits : Digits ds) : Fraction ('.' :: ds) ds

inductive Exponent : List Char → Int → Prop where
  | none : Exponent [] 0
  | plain {c : Char} {ds : List Char} (letter : c = 'e' ∨ c = 'E') (digits : Digits ds) : Exponent (c :: ds) (valueOf ds)
  | plus {c : Char} {ds : List Char} (letter : c = 'e' ∨ c = 'E') (digits : Digits ds) :
      Exponent (c :: '+' :: ds) (valueOf ds)
  | minus {c : Char} {ds : List Char} (letter : c = 'e' ∨ c = 'E') (digits : Digits ds) :
      Exponent (c :: '-' :: ds) (-(valueOf ds))

section

variable (rules : Rules)

inductive Number : List Char → Double → Prop where
  | mk {negative : Bool} {int fraction exponent ds : List Char} {e : Int} {x : Double} (digits : Digits int)
      (whole : rules.int int) (part : Fraction fraction ds) (power : Exponent exponent e)
      (value : rules.double negative (valueOf (int ++ ds)) (e - ds.length) x) :
      Number ((if negative then ['-'] else []) ++ int ++ fraction ++ exponent) x

/-- What follows a backslash. -/
inductive Escape : List Char → Char → Prop where
  | letter {c d : Char} (known : (c, d) ∈ escapes) : Escape [c] d
  | unit {ds : List Char} {n : Nat} (hex : rules.hex ds n) (high : isHigh n = false) (low : isLow n = false) :
      Escape ('u' :: ds) (Char.ofNat n)
  | pair {ds ds' : List Char} {hi lo : Nat} (first : rules.hex ds hi) (high : isHigh hi = true) (second : rules.hex ds' lo)
      (low : isLow lo = true) :
      Escape ('u' :: (ds ++ '\\' :: 'u' :: ds')) (Char.ofNat (combined hi lo))
  | lone {ds : List Char} {n : Nat} {c : Char} (hex : rules.hex ds n) (surrogate : (isHigh n || isLow n) = true)
      (taken : rules.lone n c) : Escape ('u' :: ds) c

/-- The characters between quotes, and those they are written for. -/
inductive Chars : List Char → List Char → Prop where
  | nil : Chars [] []
  | plain {c : Char} {cs s : List Char} (quote : c ≠ '"') (backslash : c ≠ '\\') (control : 0x20 ≤ c.toNat)
      (rest : Chars cs s) : Chars (c :: cs) (c :: s)
  | escape {e cs s : List Char} {d : Char} (escape : Escape rules e d) (rest : Chars cs s) : Chars ('\\' :: e ++ cs) (d :: s)

inductive Quoted : List Char → String → Prop where
  | mk {cs s : List Char} (chars : Chars rules cs s) : Quoted ('"' :: cs ++ ['"']) (String.ofList s)

/-- Elements between commas, with blanks around each. -/
inductive Series {α : Type} (element : List Char → α → Prop) : List Char → List α → Prop where
  | one {a cs b : List Char} {v : α} (before : Blank a) (item : element cs v) (after : Blank b) :
      Series element (a ++ cs ++ b) [v]
  | more {a cs b rest : List Char} {v : α} {vs : List α} (before : Blank a) (item : element cs v) (after : Blank b)
      (series : Series element rest vs) : Series element (a ++ cs ++ b ++ ',' :: rest) (v :: vs)

inductive Listed {α : Type} (element : List Char → α → Prop) : List Char → List α → Prop where
  | none {a : List Char} (blank : Blank a) : Listed element a []
  | some {cs : List Char} {vs : List α} (series : Series element cs vs) : Listed element cs vs

inductive Member (element : List Char → Json → Prop) : List Char → String × Json → Prop where
  | mk {k a b cs : List Char} {name : String} {v : Json} (key : Quoted rules k name) (before : Blank a) (after : Blank b)
      (value : element cs v) : Member element (k ++ a ++ ':' :: b ++ cs) (name, v)

/-- A value whose elements are as said. -/
inductive Shape (element : List Char → Json → Prop) : List Char → Json → Prop where
  | null : Shape element ['n', 'u', 'l', 'l'] .null
  | true : Shape element ['t', 'r', 'u', 'e'] (.bool true)
  | false : Shape element ['f', 'a', 'l', 's', 'e'] (.bool false)
  | num {cs : List Char} {x : Double} (number : Number rules cs x) : Shape element cs (.num x)
  | str {cs : List Char} {s : String} (string : Quoted rules cs s) : Shape element cs (.str s)
  | arr {cs : List Char} {vs : List Json} (items : Listed element cs vs) : Shape element ('[' :: cs ++ [']']) (.arr vs)
  | obj {cs : List Char} {ms : List (String × Json)} (members : Listed (Member rules element) cs ms) :
      Shape element ('{' :: cs ++ ['}']) (.obj ms)

/-- A value of at most so many levels. -/
def Value : Nat → List Char → Json → Prop
  | 0 => fun _ _ => False
  | levels + 1 => Shape rules (Value levels)

/-- A text is a value with blanks around it. -/
def Text (levels : Nat) (cs : List Char) (v : Json) : Prop :=
  ∃ a tok b, cs = a ++ tok ++ b ∧ Blank a ∧ Value rules levels tok v ∧ Blank b

end

/-! ## Rules -/

/-- No zero before other digits. -/
def Plain (ds : List Char) : Prop := ds = ['0'] ∨ ds.head? ≠ some '0'

def Hex4 (ds : List Char) (n : Nat) : Prop := ds.length = 4 ∧ Wire.readDigits 16 0 ds = some n

/-- The grammar says nothing about a number beyond all doubles, nor about a surrogate that stands alone: they may be any. -/
def Rules.rfc8259 : Rules where
  int := Plain
  hex := Hex4
  double negative n e x := Double.ofDecimal negative n e = some x ∨ Double.ofDecimal negative n e = none
  lone _ _ := True

/-- The texts of RFC 8259 whose numbers are finite and whose surrogates are paired. -/
def Rules.strict : Rules where
  int := Plain
  hex := Hex4
  double negative n e x := Double.ofDecimal negative n e = some x
  lone _ _ := False

/-- As the code reads it: an integer part may begin with zeros as well, and the four characters of an escape with a sign. -/
def Rules.lenient : Rules where
  int _ := True
  hex ds n := ds.length = 4 ∧ Wire.parseUnsigned 16 0xFFFFFFFF (String.ofList ds) = some n
  double negative n e x := Double.ofDecimal negative n e = some x
  lone _ _ := False

/-- What the first rules take, the second take as well. -/
structure Rules.Within (r r' : Rules) : Prop where
  int {ds : List Char} : r.int ds → r'.int ds
  hex {ds : List Char} {n : Nat} : r.hex ds n → r'.hex ds n
  double {negative : Bool} {n : Nat} {e : Int} {x : Double} : r.double negative n e x → r'.double negative n e x
  lone {n : Nat} {c : Char} : r.lone n c → r'.lone n c

section

variable {r r' : Rules} {cs : List Char}

theorem Number.mono (within : r.Within r') {x : Double} : Number r cs x → Number r' cs x
  | .mk digits whole part power value => .mk digits (within.int whole) part power (within.double value)

theorem Escape.mono (within : r.Within r') {c : Char} : Escape r cs c → Escape r' cs c
  | .letter known => .letter known
  | .unit hex high low => .unit (within.hex hex) high low
  | .pair first high second low => .pair (within.hex first) high (within.hex second) low
  | .lone hex surrogate taken => .lone (within.hex hex) surrogate (within.lone taken)

theorem Chars.mono (within : r.Within r') {s : List Char} (chars : Chars r cs s) : Chars r' cs s := by
  induction chars with
  | nil => exact .nil
  | plain quote backslash control _ ih => exact .plain quote backslash control ih
  | escape escape _ ih => exact .escape (escape.mono within) ih

theorem Quoted.mono (within : r.Within r') {s : String} : Quoted r cs s → Quoted r' cs s
  | .mk chars => .mk (chars.mono within)

section

variable {α : Type} {element element' : List Char → α → Prop}

theorem Series.mono (each : ∀ cs v, element cs v → element' cs v) {vs : List α} (series : Series element cs vs) :
    Series element' cs vs := by
  induction series with
  | one before item after => exact .one before (each _ _ item) after
  | more before item after _ ih => exact .more before (each _ _ item) after ih

theorem Listed.mono (each : ∀ cs v, element cs v → element' cs v) {vs : List α} : Listed element cs vs → Listed element' cs vs
  | .none blank => .none blank
  | .some series => .some (series.mono each)

end

theorem Member.mono (within : r.Within r') {element element' : List Char → Json → Prop}
    (each : ∀ cs v, element cs v → element' cs v) {m : String × Json} : Member r element cs m → Member r' element' cs m
  | .mk key before after value => .mk (key.mono within) before after (each _ _ value)

theorem Value.mono (within : r.Within r') {levels : Nat} {v : Json} (value : Value r levels cs v) : Value r' levels cs v := by
  induction levels generalizing cs v with
  | zero => exact value.elim
  | succ levels ih =>
    cases value with
    | null => exact .null
    | true => exact .true
    | false => exact .false
    | num number => exact .num (number.mono within)
    | str string => exact .str (string.mono within)
    | arr items => exact .arr (items.mono fun _ _ => ih)
    | obj members => exact .obj (members.mono fun _ _ => Member.mono within fun _ _ => ih)

theorem Text.mono (within : r.Within r') {levels : Nat} {v : Json} : Text r levels cs v → Text r' levels cs v
  | ⟨a, tok, b, same, before, value, after⟩ => ⟨a, tok, b, same, before, value.mono within, after⟩

end

theorem strict_lenient : Rules.strict.Within .lenient where
  int _ := trivial
  hex := by
    rintro ds n ⟨four, read⟩
    refine ⟨four, Wire.parseUnsigned_of_readDigits (by rw [String.toList_ofList]; exact read) ?_ ?_⟩
    · intro empty
      have none : ds = [] := by rw [← String.toList_ofList (l := ds), empty]; rfl
      rw [none] at four
      cases four
    · have bound := Wire.readDigits_bound read
      rw [Nat.zero_add, Nat.one_mul, four] at bound
      exact Nat.le_of_lt (Nat.lt_trans bound (by decide))
  double value := value
  lone taken := taken

theorem strict_rfc8259 : Rules.strict.Within .rfc8259 where
  int whole := whole
  hex hex := hex
  double value := .inl value
  lone taken := taken.elim

end Harpoon.Docker.JsonText
