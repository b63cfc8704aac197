import Harpoon.Wire.Fields

/-!
# Numbers and bytes as text

Decimal and hexadecimal numbers, read as Rust reads them: at least one digit, all digits of the base,
and a value within bounds; a sign `+` is accepted in front, and letters in either case. Bytes in
hexadecimal take two digits each.
-/

namespace Harpoon.Wire

/-! ## Digits -/

/-- The value of a digit, up to base 16. -/
def digitValue (c : Char) : Option Nat :=
  if '0' ≤ c ∧ c ≤ '9' then some (c.toNat - 48)
  else if 'a' ≤ c ∧ c ≤ 'f' then some (c.toNat - 87)
  else if 'A' ≤ c ∧ c ≤ 'F' then some (c.toNat - 55)
  else none

/-- The value of the digits `cs` after digits of value `n`. -/
def readDigits (base : Nat) : Nat → List Char → Option Nat
  | n, [] => some n
  | n, c :: cs =>
    match digitValue c with
    | some d => if d < base then readDigits base (base * n + d) cs else none
    | none => none

/-- A number without a sign, of at most `bound`. -/
def unsigned (base bound : Nat) (cs : List Char) : Option Nat :=
  if cs = [] then none else (readDigits base 0 cs).filter (· ≤ bound)

def parseUnsigned (base bound : Nat) (s : String) : Option Nat :=
  match s.toList with
  | '+' :: cs => unsigned base bound cs
  | cs => unsigned base bound cs

/-- A number with a sign, of at least `-(bound + 1)` and at most `bound`. -/
def parseSigned (bound : Nat) (s : String) : Option Int :=
  match s.toList with
  | '-' :: cs => (unsigned 10 (bound + 1) cs).map fun n : Nat => -(n : Int)
  | '+' :: cs => (unsigned 10 bound cs).map Int.ofNat
  | cs => (unsigned 10 bound cs).map Int.ofNat

/-- In lower-case hexadecimal, with zeros in front up to `width` digits. -/
def hexPadded (width n : Nat) : String := String.ofList (List.leftpad width '0' (Nat.toDigits 16 n))

section

variable {base bound width n m : Nat} {c : Char} {cs ds : List Char}

theorem digitValue_digitChar : ∀ {d : Nat}, d < 16 → digitValue d.digitChar = some d
  | 0, _ | 1, _ | 2, _ | 3, _ | 4, _ | 5, _ | 6, _ | 7, _ | 8, _ | 9, _ | 10, _ | 11, _ | 12, _ | 13, _ | 14, _
  | 15, _ => by decide
  | _ + 16, high => absurd high (by omega)

theorem readDigits_append :
    readDigits base n (cs ++ ds) = (readDigits base n cs).bind fun m => readDigits base m ds := by
  induction cs generalizing n with
  | nil => rfl
  | cons c cs ih =>
    rw [List.cons_append, readDigits, readDigits]
    cases digitValue c with
    | none => rfl
    | some d =>
      dsimp only
      split
      · exact ih
      · rfl

theorem readDigits_toDigits (least : 1 < base) (most : base ≤ 16) :
    readDigits base 0 (Nat.toDigits base n) = some n := by
  have digit : ∀ {k m : Nat}, m < base → readDigits base k [m.digitChar] = some (base * k + m) := by
    intro k m small
    rw [readDigits, digitValue_digitChar (Nat.lt_of_lt_of_le small most)]
    dsimp only
    rw [if_pos small, readDigits]
  induction n using Nat.base_induction base least with
  | single m small => rw [Nat.toDigits_of_lt_base small, digit small, Nat.mul_zero, Nat.zero_add]
  | digit m k small positive ih =>
    rw [← Nat.toDigits_append_toDigits least positive small, readDigits_append, ih,
      Nat.toDigits_of_lt_base small]
    exact digit small

/-- Zeros in front change nothing. -/
theorem readDigits_zeros {k : Nat} (least : 1 < base) :
    readDigits base 0 (List.replicate k '0' ++ cs) = readDigits base 0 cs := by
  induction k with
  | zero => rfl
  | succ k ih =>
    rw [List.replicate_succ, List.cons_append, readDigits, show digitValue '0' = some 0 from by decide]
    dsimp only
    rw [if_pos (Nat.lt_trans Nat.one_pos least), Nat.mul_zero]
    exact ih

/-- A number has no more than its digits can tell. -/
theorem readDigits_bound (read : readDigits base n ds = some m) :
    m < (n + 1) * Nat.pow base ds.length := by
  induction ds generalizing n with
  | nil =>
    cases read
    show m < (m + 1) * 1
    omega
  | cons d ds ih =>
    rw [readDigits] at read
    split at read
    next v _ =>
      split at read
      next small =>
        calc m < (base * n + v + 1) * Nat.pow base ds.length := ih read
          _ ≤ (n + 1) * base * Nat.pow base ds.length := by
            refine Nat.mul_le_mul_right _ ?_
            rw [Nat.add_mul, Nat.one_mul, Nat.mul_comm n base]
            omega
          _ = (n + 1) * Nat.pow base (d :: ds).length := by
            rw [Nat.mul_assoc, Nat.mul_comm base]
            rfl
      next => cases read
    next => cases read

/-- What digits can be read from has no sign in front. -/
theorem parseUnsigned_of_readDigits {s : String} (value : readDigits base 0 s.toList = some n) (some : s ≠ "")
    (fits : n ≤ bound) : parseUnsigned base bound s = Option.some n := by
  have read : unsigned base bound s.toList = Option.some n := by
    rw [unsigned, if_neg (by simpa using some), value]
    exact Option.filter_some_pos (decide_eq_true fits)
  unfold parseUnsigned
  split
  next cs sign =>
    rw [sign] at value
    cases value
  next => exact read

theorem parseUnsigned_repr (fits : n ≤ bound) : parseUnsigned 10 bound n.repr = some n := by
  refine parseUnsigned_of_readDigits ?_ Nat.repr_ne_empty fits
  rw [Nat.toList_repr]
  exact readDigits_toDigits (by decide) (by decide)

theorem unsigned_le (read : unsigned base bound cs = some n) : n ≤ bound := by
  unfold unsigned at read
  split at read
  · cases read
  · exact of_decide_eq_true (Option.filter_eq_some_iff.mp read).2

/-- What is read is within its bound. -/
theorem parseUnsigned_le {s : String} (read : parseUnsigned base bound s = some n) : n ≤ bound := by
  unfold parseUnsigned at read
  split at read
  · exact unsigned_le read
  · exact unsigned_le read

/-! ### Spellings of a number -/

theorem digitValue_cases {d : Nat} (value : digitValue c = some d) :
    (48 ≤ c.toNat ∧ d = c.toNat - 48 ∧ d < 10) ∨ (97 ≤ c.toNat ∧ d = c.toNat - 87 ∧ d < 16) ∨
      (65 ≤ c.toNat ∧ d = c.toNat - 55 ∧ d < 16) := by
  have bounds : ∀ {a b : Char}, a ≤ c ∧ c ≤ b → a.toNat ≤ c.toNat ∧ c.toNat ≤ b.toNat := fun between =>
    ⟨UInt32.le_iff_toNat_le.mp (Char.le_def.mp between.1), UInt32.le_iff_toNat_le.mp (Char.le_def.mp between.2)⟩
  have codes : '0'.toNat = 48 ∧ '9'.toNat = 57 ∧ 'a'.toNat = 97 ∧ 'f'.toNat = 102 ∧ 'A'.toNat = 65 ∧ 'F'.toNat = 70 := by
    decide
  unfold digitValue at value
  split at value
  next between =>
    have := bounds between
    cases value
    omega
  · split at value
    next between =>
      have := bounds between
      cases value
      omega
    · split at value
      next between =>
        have := bounds between
        cases value
        omega
      · cases value

/-- A digit in lower case. What is no digit stays as it is. -/
def lowerDigit (c : Char) : Char := ((digitValue c).map Nat.digitChar).getD c

theorem digitValue_lowerDigit : digitValue (lowerDigit c) = digitValue c := by
  rw [lowerDigit]
  cases value : digitValue c with
  | none => exact value
  | some d =>
    have small : d < 16 := by
      have := digitValue_cases value
      omega
    exact digitValue_digitChar small

/-- What is read is made of digits. -/
theorem digits_of_readDigits (read : readDigits base n cs = some m) : ∀ c ∈ cs, ∃ d, digitValue c = some d := by
  induction cs generalizing n with
  | nil => exact fun c mem => absurd mem List.not_mem_nil
  | cons c cs ih =>
    rw [readDigits] at read
    cases value : digitValue c with
    | none => rw [value] at read; cases read
    | some d =>
      rw [value] at read
      dsimp only at read
      split at read
      next =>
        intro x mem
        rcases List.mem_cons.mp mem with rfl | mem
        · exact ⟨d, value⟩
        · exact ih read x mem
      next => cases read

theorem readDigits_lower : readDigits base n (cs.map lowerDigit) = readDigits base n cs := by
  induction cs generalizing n with
  | nil => rfl
  | cons c cs ih =>
    rw [List.map_cons, readDigits, readDigits, digitValue_lowerDigit]
    cases digitValue c with
    | none => rfl
    | some d =>
      dsimp only
      rw [ih]

/-- Digits that are read after a positive number are the digits that follow its own. -/
theorem toDigits_readDigits (least : 1 < base) (positive : 0 < n) (read : readDigits base n cs = some m) :
    Nat.toDigits base n ++ cs.map lowerDigit = Nat.toDigits base m := by
  induction cs generalizing n with
  | nil =>
    cases read
    exact List.append_nil _
  | cons c cs ih =>
    rw [readDigits] at read
    cases value : digitValue c with
    | none =>
      rw [value] at read
      cases read
    | some d =>
      rw [value] at read
      dsimp only at read
      split at read
      next small =>
        have more : 0 < base * n + d := Nat.add_pos_left (Nat.mul_pos (Nat.lt_trans Nat.one_pos least) positive) d
        have digit : Nat.toDigits base n ++ [lowerDigit c] = Nat.toDigits base (base * n + d) := by
          rw [← Nat.toDigits_append_toDigits least positive small, Nat.toDigits_of_lt_base small, lowerDigit, value]
          rfl
        calc Nat.toDigits base n ++ (c :: cs).map lowerDigit
          _ = (Nat.toDigits base n ++ [lowerDigit c]) ++ cs.map lowerDigit := by simp
          _ = Nat.toDigits base (base * n + d) ++ cs.map lowerDigit := by rw [digit]
          _ = Nat.toDigits base m := ih more read
      next => cases read

/-- The one spelling of a number: without a sign, without zeros in front, letters in lower case. -/
def canonicalDigits (cs : List Char) : List Char :=
  match cs.dropWhile (· = '0') with
  | [] => if cs = [] then [] else ['0']
  | d :: ds => (d :: ds).map lowerDigit

theorem zeros_dropWhile (cs : List Char) :
    ∃ k, cs = List.replicate k '0' ++ cs.dropWhile (· = '0') := by
  refine ⟨(cs.takeWhile (· = '0')).length, ?_⟩
  have zeros : cs.takeWhile (· = '0') = List.replicate (cs.takeWhile (· = '0')).length '0' :=
    List.eq_replicate_iff.mpr ⟨rfl, fun c mem => of_decide_eq_true (List.all_eq_true.mp List.all_takeWhile c mem)⟩
  rw [← zeros, List.takeWhile_append_dropWhile]

theorem toDigits_inj (least : 1 < base) (most : base ≤ 16) (same : Nat.toDigits base n = Nat.toDigits base m) : n = m := by
  have read := readDigits_toDigits (n := n) least most
  rw [same, readDigits_toDigits least most] at read
  exact (Option.some.inj read).symm

/-- What is read as a number is one of its spellings. -/
theorem readDigits_iff (least : 1 < base) (most : base ≤ 16) :
    (cs ≠ [] ∧ readDigits base 0 cs = some n) ↔ canonicalDigits cs = Nat.toDigits base n := by
  obtain ⟨k, split⟩ := zeros_dropWhile cs
  have read : readDigits base 0 cs = readDigits base 0 (cs.dropWhile (· = '0')) := by
    rw [split, readDigits_zeros least, ← split]
  rw [canonicalDigits, read]
  cases rest : cs.dropWhile (· = '0') with
  | nil =>
    have zero : ['0'] = Nat.toDigits base 0 := by rw [Nat.toDigits_of_lt_base (Nat.lt_trans Nat.one_pos least)]; rfl
    dsimp only
    split
    next empty => exact ⟨fun h => absurd empty h.1, fun none => absurd none.symm Nat.toDigits_ne_nil⟩
    next some =>
      rw [zero]
      exact ⟨fun h => congrArg _ (Option.some.inj h.2), fun same => ⟨some, congrArg _ (toDigits_inj least most same)⟩⟩
  | cons d ds =>
    have filled : cs ≠ [] := by
      rintro rfl
      cases rest
    dsimp only
    constructor
    · rintro ⟨_, read⟩
      rw [readDigits] at read
      cases value : digitValue d with
      | none =>
        rw [value] at read
        cases read
      | some v =>
        rw [value] at read
        dsimp only at read
        split at read
        next small =>
          have other : d ≠ '0' := by
            have head := List.head?_dropWhile_not (· = '0') cs
            rw [rest] at head
            exact of_decide_eq_false (by simpa using head)
          have positive : 0 < v := by
            rcases digitValue_cases value with ⟨low, rfl, _⟩ | ⟨low, rfl, _⟩ | ⟨low, rfl, _⟩
            · have apart : d.toNat ≠ 48 := fun same => other (Char.toNat_inj.mp same)
              omega
            · omega
            · omega
          rw [Nat.mul_zero, Nat.zero_add] at read
          rw [← toDigits_readDigits least positive read, Nat.toDigits_of_lt_base small, List.map_cons, lowerDigit, value]
          rfl
        next => cases read
    · intro same
      refine ⟨filled, ?_⟩
      rw [← readDigits_lower, same, readDigits_toDigits least most]

theorem unsigned_iff (least : 1 < base) (most : base ≤ 16) :
    unsigned base bound cs = some n ↔ canonicalDigits cs = Nat.toDigits base n ∧ n ≤ bound := by
  rw [← readDigits_iff least most, unsigned]
  split
  next empty => exact ⟨fun h => (by cases h), fun h => absurd empty h.1.1⟩
  next filled => simp [Option.filter_eq_some_iff, filled]

/-- A number without the sign in front. -/
def signless (s : String) : List Char :=
  match s.toList with
  | '+' :: cs => cs
  | cs => cs

theorem parseUnsigned_iff (least : 1 < base) (most : base ≤ 16) {s : String} :
    parseUnsigned base bound s = some n ↔ canonicalDigits (signless s) = Nat.toDigits base n ∧ n ≤ bound := by
  rw [← unsigned_iff least most, parseUnsigned.eq_def, signless.eq_def]
  split
  · rfl
  · rfl

/-- The characters of a number are digits of its base. -/
theorem hexDigit_of_mem (mem : c ∈ (hexPadded width n).toList) : ∃ d < 16, c = d.digitChar := by
  have digits : ∀ n, ∀ c ∈ Nat.toDigits 16 n, ∃ d < 16, c = d.digitChar := by
    intro n
    induction n using Nat.base_induction 16 (by decide) with
    | single m small =>
      intro c mem
      rw [Nat.toDigits_of_lt_base small] at mem
      exact ⟨m, small, List.mem_singleton.mp mem⟩
    | digit m k small positive ih =>
      intro c mem
      rw [← Nat.toDigits_append_toDigits (by decide) positive small, Nat.toDigits_of_lt_base small] at mem
      rcases List.mem_append.mp mem with mem | mem
      · exact ih c mem
      · exact ⟨k, small, List.mem_singleton.mp mem⟩
  rw [hexPadded, String.toList_ofList, List.leftpad] at mem
  rcases List.mem_append.mp mem with mem | mem
  · exact ⟨0, by decide, (List.mem_replicate.mp mem).2⟩
  · exact digits n c mem

theorem hexPadded_free {sep : Char} (foreign : ∀ d : Fin 16, d.val.digitChar ≠ sep) :
    Free sep (hexPadded width n) := by
  intro mem
  obtain ⟨d, small, same⟩ := hexDigit_of_mem mem
  exact foreign ⟨d, small⟩ same.symm

theorem repr_free {sep : Char} (foreign : sep.isDigit = false) : Free sep n.repr := by
  intro mem
  rw [Nat.toList_repr] at mem
  cases foreign.symm.trans (Nat.isDigit_of_mem_toDigits (by decide) (by decide) mem)

theorem length_hexPadded (positive : 0 < width) (fits : n < Nat.pow 16 width) :
    (hexPadded width n).toList.length = width := by
  have short := (Nat.length_toDigits_le_iff (by decide) positive).mpr fits
  rw [hexPadded, String.toList_ofList, List.length_leftpad]
  exact Nat.max_eq_left short

theorem readDigits_hexPadded : readDigits 16 0 (hexPadded width n).toList = some n := by
  rw [hexPadded, String.toList_ofList, List.leftpad, readDigits_zeros (by decide)]
  exact readDigits_toDigits (by decide) (by decide)

theorem parseUnsigned_hexPadded (fits : n ≤ bound) : parseUnsigned 16 bound (hexPadded width n) = some n := by
  refine parseUnsigned_of_readDigits readDigits_hexPadded ?_ fits
  intro empty
  have none : (hexPadded width n).toList = [] := by rw [empty]; rfl
  rw [hexPadded, String.toList_ofList, List.leftpad] at none
  exact Nat.toDigits_ne_nil (List.append_eq_nil_iff.mp none).2

/-- A positive number does not begin with a zero. -/
theorem head_toDigits (positive : 0 < n) : (Nat.toDigits 10 n).head? ≠ some '0' := by
  induction n using Nat.base_induction 10 (by decide) with
  | single m small =>
    rw [Nat.toDigits_of_lt_base small]
    have digit : ∀ d : Fin 10, 0 < d.val → d.val.digitChar ≠ '0' := by decide
    exact fun same => digit ⟨m, small⟩ positive (Option.some.inj same)
  | digit m k small more ih =>
    rw [← Nat.toDigits_append_toDigits (by decide) more small]
    cases digits : Nat.toDigits 10 m with
    | nil => exact absurd digits Nat.toDigits_ne_nil
    | cons d ds =>
      have head := ih more
      rw [digits] at head
      exact head

/-- In decimal, with a sign in front of a negative number. -/
def signedText : Int → String
  | .ofNat n => n.repr
  | .negSucc n => String.singleton '-' ++ (n + 1).repr

theorem unsigned_repr (fits : n ≤ bound) : unsigned 10 bound n.repr.toList = some n := by
  rw [unsigned, Nat.toList_repr, if_neg Nat.toDigits_ne_nil, readDigits_toDigits (by decide) (by decide)]
  exact Option.filter_some_pos (decide_eq_true fits)

theorem parseSigned_signedText {i : Int} (least : -(bound + 1 : Int) ≤ i) (most : i ≤ bound) :
    parseSigned bound (signedText i) = some i := by
  cases i with
  | ofNat n =>
    have read := unsigned_repr (n := n) (Int.ofNat_le.mp most)
    have digit : ∀ c cs, n.repr.toList = c :: cs → c.isDigit := by
      intro c cs head
      rw [Nat.toList_repr] at head
      exact Nat.isDigit_of_mem_toDigits (by decide) (by decide) (head ▸ List.mem_cons_self)
    rw [parseSigned, signedText]
    split
    next cs head => exact absurd (digit _ _ head) (by decide)
    next cs head => exact absurd (digit _ _ head) (by decide)
    next => rw [read]; rfl
  | negSucc n =>
    have fits : n + 1 ≤ bound + 1 := by omega
    have chars : (signedText (.negSucc n)).toList = '-' :: (n + 1).repr.toList := by
      rw [signedText, String.toList_append, String.toList_singleton]
      rfl
    rw [parseSigned, chars]
    show (unsigned 10 (bound + 1) (n + 1).repr.toList).map (fun n : Nat => -(n : Int)) = _
    rw [unsigned_repr fits]
    rfl

theorem signedText_free {i : Int} {sep : Char} (digit : sep.isDigit = false) (sign : sep ≠ '-') :
    Free sep (signedText i) := by
  cases i with
  | ofNat n => exact repr_free digit
  | negSucc n =>
    intro mem
    rw [signedText, String.toList_append, String.toList_singleton] at mem
    rcases List.mem_cons.mp mem with same | mem
    · exact sign same
    · exact repr_free digit mem

end

/-! ## Bytes -/

abbrev Bytes := List UInt8

/-- The bytes of a text. -/
def utf8 (s : String) : Bytes := s.toByteArray.data.toList

/-- The text that the bytes spell, if they spell one. -/
def fromUtf8 (bs : Bytes) : Option String := String.fromUTF8? ⟨bs.toArray⟩

@[simp] theorem fromUtf8_utf8 (s : String) : fromUtf8 (utf8 s) = some s := by
  have same : (⟨(utf8 s).toArray⟩ : ByteArray) = s.toByteArray := by simp [utf8]
  rw [fromUtf8, same, String.fromUTF8?, dif_pos s.isValidUTF8]
  rfl

theorem utf8_of_fromUtf8 {bs : Bytes} {s : String} (text : fromUtf8 bs = some s) : bs = utf8 s := by
  unfold fromUtf8 String.fromUTF8? at text
  split at text
  · cases text
    simp [utf8, String.fromUTF8]
  · cases text

/-- A byte of a character's encoding that is below 128 is the character itself. -/
theorem mem_utf8EncodeChar {c : Char} {b : UInt8} (mem : b ∈ String.utf8EncodeChar c) (low : b.toNat < 128) :
    c.toNat = b.toNat := by
  have high : ∀ {n k : Nat}, 128 ≤ k → n + k < 256 → ¬ (UInt8.ofNat (n + k)).toNat < 128 := by
    intro n k large small under
    rw [UInt8.toNat_ofNat', Nat.mod_eq_of_lt small] at under
    omega
  unfold String.utf8EncodeChar at mem
  dsimp only at mem
  split at mem
  next ascii =>
    rw [List.mem_singleton.mp mem, UInt8.toNat_ofNat', Nat.mod_eq_of_lt (by omega)]
    rfl
  next =>
    exfalso
    split at mem
    · simp only [List.mem_cons, List.not_mem_nil, or_false] at mem
      rcases mem with rfl | rfl
      · exact high (by decide) (by omega) low
      · exact high (by decide) (by omega) low
    · split at mem
      · simp only [List.mem_cons, List.not_mem_nil, or_false] at mem
        rcases mem with rfl | rfl | rfl
        · exact high (by decide) (by omega) low
        · exact high (by decide) (by omega) low
        · exact high (by decide) (by omega) low
      · simp only [List.mem_cons, List.not_mem_nil, or_false] at mem
        rcases mem with rfl | rfl | rfl | rfl
        · exact high (by decide) (by omega) low
        · exact high (by decide) (by omega) low
        · exact high (by decide) (by omega) low
        · exact high (by decide) (by omega) low

theorem utf8_eq (s : String) : utf8 s = s.toList.flatMap String.utf8EncodeChar := by
  rw [utf8, ← String.utf8Encode_toList, List.utf8Encode, List.toList_data_toByteArray]

/-- A byte below 128 stands in a text for its character alone. -/
theorem ascii_utf8 {s : String} {c : Char} {b : UInt8} (code : c.toNat = b.toNat) (low : b.toNat < 128) :
    b ∈ utf8 s ↔ c ∈ s.toList := by
  rw [utf8_eq, List.mem_flatMap]
  constructor
  · rintro ⟨d, inside, mem⟩
    have same : d = c := Char.toNat_inj.mp ((mem_utf8EncodeChar mem low).trans code.symm)
    exact same ▸ inside
  · intro inside
    refine ⟨c, inside, ?_⟩
    have ascii : c.val.toNat ≤ 127 := by
      have same : c.val.toNat = b.toNat := code
      omega
    rw [String.utf8EncodeChar, if_pos ascii, List.mem_singleton]
    exact UInt8.toNat_inj.mp (by
      rw [UInt8.toNat_ofNat', Nat.mod_eq_of_lt (by omega)]
      exact code.symm)

/-- A text without line breaks has no byte of a line break. -/
theorem newline_utf8 {s : String} (free : Free '\n' s) : (10 : UInt8) ∉ utf8 s :=
  fun mem => free ((ascii_utf8 rfl (by decide)).mp mem)

/-- Two hexadecimal digits for each byte. -/
def hex (bs : Bytes) : String := String.ofList (bs.flatMap fun b => (hexPadded 2 b.toNat).toList)

/-- The bytes of pairs of digits. -/
def unhexed : List Char → Option Bytes
  | [] => some []
  | [_] => none
  | a :: b :: rest => do
    let value ← parseUnsigned 16 255 (String.ofList [a, b])
    let bytes ← unhexed rest
    return UInt8.ofNat value :: bytes

def unhex (s : String) : Option Bytes := unhexed s.toList

theorem unhex_hex (bs : Bytes) : unhex (hex bs) = some bs := by
  rw [unhex, hex, String.toList_ofList]
  induction bs with
  | nil => rfl
  | cons b bs ih =>
    have small : b.toNat ≤ 255 := Nat.le_of_lt_succ b.toNat_lt
    have two : (hexPadded 2 b.toNat).toList.length = 2 := length_hexPadded (by decide) b.toNat_lt
    obtain ⟨x, y, pair⟩ : ∃ x y, (hexPadded 2 b.toNat).toList = [x, y] := by
      generalize (hexPadded 2 b.toNat).toList = l at two
      match l, two with
      | [x, y], _ => exact ⟨x, y, rfl⟩
    have text : String.ofList [x, y] = hexPadded 2 b.toNat := by rw [← pair, String.ofList_toList]
    rw [List.flatMap_cons, pair, List.cons_append, List.cons_append, List.nil_append, unhexed, ih, text,
      parseUnsigned_hexPadded small]
    simp

/-- A text in hexadecimal. -/
def hexText (s : String) : String := hex (utf8 s)

def unhexText (s : String) : Option String := (unhex s).bind fromUtf8

theorem hexText_free {sep : Char} (foreign : ∀ d : Fin 16, d.val.digitChar ≠ sep) (s : String) :
    Free sep (hexText s) := by
  intro mem
  rw [hexText, hex, String.toList_ofList] at mem
  obtain ⟨b, _, mem⟩ := List.mem_flatMap.mp mem
  exact hexPadded_free foreign mem

theorem unhexText_hexText (s : String) : unhexText (hexText s) = some s := by
  rw [unhexText, hexText, unhex_hex, Option.bind_some, fromUtf8_utf8]

theorem hexText_ne_empty {s : String} (some : s ≠ "") : hexText s ≠ "" := by
  intro empty
  have none : hexText "" = "" := by decide
  have same := unhexText_hexText s
  rw [empty, ← none, unhexText_hexText] at same
  exact some (Option.some.inj same).symm

end Harpoon.Wire
