import Harpoon.Wire.Utf8

/-!
# Where bytes stop being text

The error of `from_utf8`: how far the bytes are text, and how many bytes there can never become a part of a character,
unless the bytes end inside one. `from_utf8_lossy` replaces each of these parts. The decoder of bytes as they come
stops at the same places.
-/

namespace Harpoon.Wire

/-! ## The character in front -/

/-- How many bytes a character has, by its first byte. No character begins with the bytes of width 0. -/
def charWidth (b : UInt8) : Nat :=
  if b.toNat < 0x80 then 1
  else if b.toNat < 0xc2 then 0
  else if b.toNat < 0xe0 then 2
  else if b.toNat < 0xf0 then 3
  else if b.toNat < 0xf5 then 4
  else 0

def isTail (b : UInt8) : Bool := 0x80 ≤ b.toNat && b.toNat ≤ 0xbf

/-- The second byte of three. -/
def secondOfThree (first b : UInt8) : Bool :=
  if first.toNat = 0xe0 then 0xa0 ≤ b.toNat && b.toNat ≤ 0xbf
  else if first.toNat = 0xed then 0x80 ≤ b.toNat && b.toNat ≤ 0x9f
  else isTail b

/-- The second byte of four. -/
def secondOfFour (first b : UInt8) : Bool :=
  if first.toNat = 0xf0 then 0x90 ≤ b.toNat && b.toNat ≤ 0xbf
  else if first.toNat = 0xf4 then 0x80 ≤ b.toNat && b.toNat ≤ 0x8f
  else isTail b

/-- A byte that may follow, and the bytes after it. The error is the `error_len` when another byte stands there, and
none at the end. -/
def follow (may : UInt8 → Bool) (errorLen : Nat) : Bytes → Except (Option Nat) Bytes
  | [] => .error none
  | b :: rest => if may b then .ok rest else .error (some errorLen)

/-- The bytes after the character that begins with `first`. -/
def afterChar (first : UInt8) (rest : Bytes) : Except (Option Nat) Bytes :=
  match charWidth first with
  | 1 => .ok rest
  | 2 => follow isTail 1 rest
  | 3 => follow (secondOfThree first) 1 rest >>= follow isTail 2
  | 4 => follow (secondOfFour first) 1 rest >>= follow isTail 2 >>= follow isTail 3
  | _ => .error (some 1)

structure Utf8Error where
  validUpTo : Nat
  /-- How many bytes can never be part of a character here; none if the bytes end inside one. -/
  errorLen : Option Nat
  deriving DecidableEq, Repr

section

variable {may : UInt8 → Bool} {first b : UInt8} {n : Nat} {rest behind x y : Bytes} {len : Option Nat}

theorem follow_ok (next : follow may n x = .ok y) : ∃ b, x = b :: y ∧ may b = true := by
  cases x with
  | nil => cases next
  | cons b x =>
    rw [follow] at next
    split at next
    · next yes =>
      cases next
      exact ⟨b, rfl, yes⟩
    · cases next

theorem follow_error (next : follow may n x = .error len) :
    (x = [] ∧ len = none) ∨ ∃ b y, x = b :: y ∧ may b = false ∧ len = some n := by
  cases x with
  | nil =>
    cases next
    exact .inl ⟨rfl, rfl⟩
  | cons b x =>
    rw [follow] at next
    split at next
    · cases next
    · next no =>
      cases next
      exact .inr ⟨b, x, rfl, Bool.eq_false_iff.mpr no, rfl⟩

theorem bind_ok_iff {ε α β : Type} {e : Except ε α} {f : α → Except ε β} {v : β} :
    e >>= f = .ok v ↔ ∃ a, e = .ok a ∧ f a = .ok v := by
  cases e with
  | error err => exact iff_of_false nofun fun ⟨_, same, _⟩ => by cases same
  | ok a => exact ⟨fun h => ⟨a, rfl, h⟩, fun ⟨_, same, h⟩ => by cases same; exact h⟩

theorem bind_error_iff {ε α β : Type} {e : Except ε α} {f : α → Except ε β} {err : ε} :
    e >>= f = .error err ↔ e = .error err ∨ ∃ a, e = .ok a ∧ f a = .error err := by
  cases e with
  | error err' =>
    constructor
    · intro h
      cases h
      exact .inl rfl
    · rintro (h | ⟨_, same, _⟩)
      · cases h
        rfl
      · cases same
  | ok a =>
    constructor
    · exact fun h => .inr ⟨a, rfl, h⟩
    · rintro (h | ⟨_, same, h⟩)
      · cases h
      · cases same
        exact h

/-- What a character is made of. -/
inductive Spelled : UInt8 → Bytes → Prop where
  | one {a : UInt8} (low : a.toNat < 0x80) : Spelled a []
  | two {a b : UInt8} (least : 0xc2 ≤ a.toNat) (most : a.toNat < 0xe0) (second : isTail b = true) : Spelled a [b]
  | three {a b c : UInt8} (least : 0xe0 ≤ a.toNat) (most : a.toNat < 0xf0) (second : secondOfThree a b = true)
      (third : isTail c = true) : Spelled a [b, c]
  | four {a b c d : UInt8} (least : 0xf0 ≤ a.toNat) (most : a.toNat < 0xf5) (second : secondOfFour a b = true)
      (third : isTail c = true) (fourth : isTail d = true) : Spelled a [b, c, d]

theorem charWidth_cases (a : UInt8) :
    (charWidth a = 1 ∧ a.toNat < 0x80) ∨ (charWidth a = 2 ∧ 0xc2 ≤ a.toNat ∧ a.toNat < 0xe0) ∨
      (charWidth a = 3 ∧ 0xe0 ≤ a.toNat ∧ a.toNat < 0xf0) ∨ (charWidth a = 4 ∧ 0xf0 ≤ a.toNat ∧ a.toNat < 0xf5) ∨
      (charWidth a = 0 ∧ (0x80 ≤ a.toNat ∧ a.toNat < 0xc2 ∨ 0xf5 ≤ a.toNat)) := by
  unfold charWidth
  split
  · omega
  · split
    · omega
    · split
      · omega
      · split
        · omega
        · split <;> omega

theorem afterChar_ok (char : afterChar first x = .ok rest) : ∃ y, x = y ++ rest ∧ Spelled first y := by
  rcases charWidth_cases first with
    ⟨width, low⟩ | ⟨width, least, most⟩ | ⟨width, least, most⟩ | ⟨width, least, most⟩ | ⟨width, -⟩ <;>
    rw [afterChar, width] at char
  · cases char
    exact ⟨[], rfl, .one low⟩
  · obtain ⟨b, rfl, second⟩ := follow_ok char
    exact ⟨[b], rfl, .two least most second⟩
  · obtain ⟨y, char, last⟩ := bind_ok_iff.mp char
    obtain ⟨b, rfl, second⟩ := follow_ok char
    obtain ⟨c, rfl, third⟩ := follow_ok last
    exact ⟨[b, c], rfl, .three least most second third⟩
  · obtain ⟨z, char, last⟩ := bind_ok_iff.mp char
    obtain ⟨y, char, middle⟩ := bind_ok_iff.mp char
    obtain ⟨b, rfl, second⟩ := follow_ok char
    obtain ⟨c, rfl, third⟩ := follow_ok middle
    obtain ⟨d, rfl, fourth⟩ := follow_ok last
    exact ⟨[b, c, d], rfl, .four least most second third fourth⟩
  · cases char

theorem isTail_iff : isTail b = true ↔ 0x80 ≤ b.toNat ∧ b.toNat ≤ 0xbf := by
  rw [isTail, Bool.and_eq_true, decide_eq_true_iff, decide_eq_true_iff]

theorem secondOfThree_iff : secondOfThree first b = true ↔
    0x80 ≤ b.toNat ∧ b.toNat ≤ 0xbf ∧ (first.toNat = 0xe0 → 0xa0 ≤ b.toNat) ∧ (first.toNat = 0xed → b.toNat ≤ 0x9f) := by
  rw [secondOfThree]
  split
  · rw [Bool.and_eq_true, decide_eq_true_iff, decide_eq_true_iff]
    omega
  · split
    · rw [Bool.and_eq_true, decide_eq_true_iff, decide_eq_true_iff]
      omega
    · rw [isTail_iff]
      omega

theorem secondOfFour_iff : secondOfFour first b = true ↔
    0x80 ≤ b.toNat ∧ b.toNat ≤ 0xbf ∧ (first.toNat = 0xf0 → 0x90 ≤ b.toNat) ∧ (first.toNat = 0xf4 → b.toNat ≤ 0x8f) := by
  rw [secondOfFour]
  split
  · rw [Bool.and_eq_true, decide_eq_true_iff, decide_eq_true_iff]
    omega
  · split
    · rw [Bool.and_eq_true, decide_eq_true_iff, decide_eq_true_iff]
      omega
    · rw [isTail_iff]
      omega

theorem ofNat_toNat' (v : Nat) (valid : v < 0xd800 ∨ 0xdfff < v ∧ v < 0x110000) : (Char.ofNat v).val.toNat = v := by
  have ok : v.isValidChar := valid
  rw [Char.ofNat, dif_pos ok]
  rfl

theorem byte_eq (same : n = b.toNat) : UInt8.ofNat n = b := by
  rw [same, UInt8.ofNat_toNat]

/-- The bytes of a character spell one. -/
theorem Spelled.char {a : UInt8} {y : Bytes} (spelled : Spelled a y) : ∃ c, a :: y = String.utf8EncodeChar c := by
  cases spelled with
  | one low =>
    have code := ofNat_toNat' a.toNat (by omega)
    refine ⟨Char.ofNat a.toNat, ?_⟩
    rw [String.utf8EncodeChar, code, if_pos (by omega), byte_eq rfl]
  | @two b least most second =>
    rw [isTail_iff] at second
    have code := ofNat_toNat' (a.toNat % 32 * 64 + b.toNat % 64) (by omega)
    refine ⟨Char.ofNat (a.toNat % 32 * 64 + b.toNat % 64), ?_⟩
    rw [String.utf8EncodeChar, code, if_neg (by omega), if_pos (by omega), byte_eq (b := a) (by omega), byte_eq (b := b) (by omega)]
  | @three b c least most second third =>
    rw [secondOfThree_iff] at second
    rw [isTail_iff] at third
    have code := ofNat_toNat' (a.toNat % 16 * 4096 + b.toNat % 64 * 64 + c.toNat % 64) (by omega)
    refine ⟨Char.ofNat (a.toNat % 16 * 4096 + b.toNat % 64 * 64 + c.toNat % 64), ?_⟩
    rw [String.utf8EncodeChar, code, if_neg (by omega), if_neg (by omega), if_pos (by omega), byte_eq (b := a) (by omega),
      byte_eq (b := b) (by omega), byte_eq (b := c) (by omega)]
  | @four b c d least most second third fourth =>
    rw [secondOfFour_iff] at second
    rw [isTail_iff] at third fourth
    have code := ofNat_toNat' (a.toNat % 8 * 262144 + b.toNat % 64 * 4096 + c.toNat % 64 * 64 + d.toNat % 64) (by omega)
    refine ⟨Char.ofNat (a.toNat % 8 * 262144 + b.toNat % 64 * 4096 + c.toNat % 64 * 64 + d.toNat % 64), ?_⟩
    rw [String.utf8EncodeChar, code, if_neg (by omega), if_neg (by omega), if_neg (by omega), byte_eq (b := a) (by omega),
      byte_eq (b := b) (by omega), byte_eq (b := c) (by omega), byte_eq (b := d) (by omega)]

theorem Spelled.decoded {a : UInt8} {y : Bytes} (spelled : Spelled a y) (x : Bytes) :
    ∃ c, a :: y = String.utf8EncodeChar c ∧ decodeFrom [] (a :: (y ++ x)) = (c :: (decodeFrom [] x).1, (decodeFrom [] x).2) := by
  obtain ⟨c, bytes⟩ := spelled.char
  refine ⟨c, bytes, ?_⟩
  rw [← List.cons_append, bytes, decodeFrom_append, decode_char]
  rfl

/-- A byte that does not continue the character ends it, and begins another one. -/
theorem decodeFrom_broken {a : UInt8} {carry : Bytes} (stops : continuesChar (a :: carry) b = false) :
    decodeFrom (a :: carry) (b :: y) = (replacement :: (decodeFrom [] (b :: y)).1, (decodeFrom [] (b :: y)).2) := by
  rw [decodeFrom, decodeByte, if_neg (Bool.eq_false_iff.mp stops), decodeFrom, decodeByte]
  rfl

theorem continues_two {a : UInt8} (least : 0xc2 ≤ a.toNat) (most : a.toNat < 0xe0) : continuesChar [a] b = isTail b := by
  rw [continuesChar, isTail]
  simp only [if_neg (show a.toNat ≠ 0xe0 by omega), if_neg (show a.toNat ≠ 0xf0 by omega), if_neg (show a.toNat ≠ 0xed by omega),
    if_neg (show a.toNat ≠ 0xf4 by omega)]

theorem continues_three {a : UInt8} (least : 0xe0 ≤ a.toNat) (most : a.toNat < 0xf0) : continuesChar [a] b = secondOfThree a b := by
  rw [continuesChar, secondOfThree, isTail]
  simp only [if_neg (show a.toNat ≠ 0xf0 by omega), if_neg (show a.toNat ≠ 0xf4 by omega)]
  split
  · next is => rw [if_neg (show a.toNat ≠ 0xed by omega)]
  · split <;> rfl

theorem continues_four {a : UInt8} (least : 0xf0 ≤ a.toNat) (most : a.toNat < 0xf5) : continuesChar [a] b = secondOfFour a b := by
  rw [continuesChar, secondOfFour, isTail]
  simp only [if_neg (show a.toNat ≠ 0xe0 by omega), if_neg (show a.toNat ≠ 0xed by omega)]
  split
  · next is => rw [if_neg (show a.toNat ≠ 0xf4 by omega)]
  · split <;> rfl

theorem continues_tail {a d : UInt8} : continuesChar (a :: d :: x) b = isTail b := rfl

/-- What the decoder does where no character stands: it waits, or it gives up on `n` bytes. -/
def Stops (bs : Bytes) : Option Nat → Prop
  | none => decodeFrom [] bs = ([], bs) ∧ bs ≠ []
  | some n => 0 < n ∧ n ≤ bs.length ∧ decodeFrom [] bs = (replacement :: (decodeFrom [] (bs.drop n)).1,
      (decodeFrom [] (bs.drop n)).2)

/-- Behind bytes that begin a character, another one may follow or not. -/
theorem follow_stops {a : UInt8} (carry : Bytes) (waits : ∀ z, decodeFrom [] (a :: (carry ++ z)) = decodeFrom (a :: carry) z)
    (may_ : ∀ b, continuesChar (a :: carry) b = may b) (next : follow may (carry.length + 1) x = .error len) :
    Stops (a :: (carry ++ x)) len := by
  rcases follow_error next with ⟨rfl, rfl⟩ | ⟨b, y, rfl, stops, rfl⟩
  · have here := waits []
    rw [List.append_nil] at here ⊢
    exact ⟨here, List.cons_ne_nil _ _⟩
  · rw [← may_] at stops
    have behind : (a :: (carry ++ b :: y)).drop (carry.length + 1) = b :: y := by simp
    refine ⟨by omega, by simp, ?_⟩
    rw [behind, waits, decodeFrom_broken stops]

theorem afterChar_error {a : UInt8} (char : afterChar a x = .error len) : Stops (a :: x) len := by
  rcases charWidth_cases a with ⟨width, low⟩ | ⟨width, least, most⟩ | ⟨width, least, most⟩ | ⟨width, least, most⟩ | ⟨width, bad⟩ <;>
    rw [afterChar, width] at char
  · cases char
  · exact follow_stops [] (fun z => decodeFrom_lead least (by omega)) (fun b => continues_two least most) char
  · have lead : ∀ z, decodeFrom [] (a :: z) = decodeFrom [a] z := fun z => decodeFrom_lead (by omega) (by omega)
    have owes : owed a = 2 := by rw [owed, if_neg (by omega), if_pos (by omega)]
    rcases bind_error_iff.mp char with char | ⟨y, char, last⟩
    · exact follow_stops [] lead (fun b => continues_three least most) char
    · obtain ⟨b, rfl, second⟩ := follow_ok char
      rw [← continues_three least most] at second
      exact follow_stops [b] (fun z => (lead _).trans (decodeFrom_more second (by simp [owes]))) (fun _ => continues_tail) last
  · have lead : ∀ z, decodeFrom [] (a :: z) = decodeFrom [a] z := fun z => decodeFrom_lead (by omega) (by omega)
    have owes : owed a = 3 := by rw [owed, if_neg (by omega), if_neg (by omega)]
    rcases bind_error_iff.mp char with char | ⟨z, char, last⟩
    · rcases bind_error_iff.mp char with char | ⟨y, char, middle⟩
      · exact follow_stops [] lead (fun b => continues_four least most) char
      · obtain ⟨b, rfl, second⟩ := follow_ok char
        rw [← continues_four least most] at second
        exact follow_stops [b] (fun z => (lead _).trans (decodeFrom_more second (by simp [owes]))) (fun _ => continues_tail) middle
    · obtain ⟨y, char, middle⟩ := bind_ok_iff.mp char
      obtain ⟨b, rfl, second⟩ := follow_ok char
      obtain ⟨c, rfl, third⟩ := follow_ok middle
      rw [← continues_four least most] at second
      have more : ∀ z, decodeFrom [] (a :: b :: z) = decodeFrom [a, b] z := fun z =>
        (lead _).trans (decodeFrom_more second (by simp [owes]))
      exact follow_stops [b, c] (fun z => (more _).trans (decodeFrom_more third (by simp [owes]))) (fun _ => continues_tail) last
  · cases char
    refine ⟨by decide, by simp, ?_⟩
    have lead : leadByte a = ([replacement], []) := by rw [leadByte, if_neg (by omega), if_neg (by omega)]
    show (((leadByte a).1 ++ (decodeFrom (leadByte a).2 x).1), (decodeFrom (leadByte a).2 x).2) = _
    rw [lead]
    rfl

end

theorem afterChar_shorter {a : UInt8} {x rest : Bytes} (char : afterChar a x = .ok rest) : rest.length ≤ x.length := by
  obtain ⟨y, rfl, -⟩ := afterChar_ok char
  simp

/-- `from_utf8`: the first error, if the bytes are not text. -/
def utf8Error : Bytes → Option Utf8Error
  | [] => none
  | b :: rest =>
    match _char : afterChar b rest with
    | .error len => some ⟨0, len⟩
    | .ok behind => (utf8Error behind).map fun e => { e with validUpTo := charWidth b + e.validUpTo }
termination_by bs => bs.length
decreasing_by exact Nat.lt_succ_of_le (afterChar_shorter _char)

/-- The text that valid bytes are. -/
def validText (bs : Bytes) : String := (fromUtf8 bs).getD ""

/-- A text, and behind it what is none. -/
inductive Broken : Bytes → Utf8Error → Prop where
  | at_ (s : String) (bs : Bytes) (len : Option Nat) (stops : Stops bs len) : Broken (utf8 s ++ bs) ⟨(utf8 s).length, len⟩

theorem Spelled.width {a : UInt8} {y : Bytes} (spelled : Spelled a y) : charWidth a = y.length + 1 := by
  rcases charWidth_cases a with ⟨width, low⟩ | ⟨width, least, most⟩ | ⟨width, least, most⟩ | ⟨width, least, most⟩ | ⟨width, bad⟩ <;>
    rw [width] <;> cases spelled <;> first | rfl | omega

theorem utf8_singleton (c : Char) : utf8 (String.singleton c) = String.utf8EncodeChar c := by
  rw [utf8_eq, String.toList_singleton, List.flatMap_singleton]

theorem utf8Error_spec (bs : Bytes) : (utf8Error bs = none ∧ ∃ s, bs = utf8 s) ∨ ∃ e, utf8Error bs = some e ∧ Broken bs e := by
  induction bs using utf8Error.induct with
  | case1 => exact .inl ⟨by rw [utf8Error], "", by simp [utf8_eq]⟩
  | case2 b rest len char =>
    have error : utf8Error (b :: rest) = some ⟨0, len⟩ := by
      rw [utf8Error]
      split
      · next len' char' =>
        rw [char] at char'
        cases char'
        rfl
      · next behind char' =>
        rw [char] at char'
        cases char'
    have stops := afterChar_error char
    have text : utf8 "" = [] := by simp [utf8_eq]
    exact .inr ⟨_, error, by simpa [text] using Broken.at_ "" (b :: rest) len stops⟩
  | case3 b rest behind char ih =>
    have next_ : utf8Error (b :: rest) = (utf8Error behind).map fun e => { e with validUpTo := charWidth b + e.validUpTo } := by
      rw [utf8Error]
      split
      · next len' char' =>
        rw [char] at char'
        cases char'
      · next behind' char' =>
        rw [char] at char'
        cases char'
        rfl
    obtain ⟨y, rfl, spelled⟩ := afterChar_ok char
    obtain ⟨c, bytes⟩ := spelled.char
    rcases ih with ⟨none_, s, rfl⟩ | ⟨e, error, broken⟩
    · refine .inl ⟨by rw [next_, none_]; rfl, String.singleton c ++ s, ?_⟩
      rw [utf8_append, utf8_singleton, ← bytes, List.cons_append]
    · refine .inr ⟨_, by rw [next_, error]; rfl, ?_⟩
      cases broken with
      | at_ s bs len stops =>
        have grown := Broken.at_ (String.singleton c ++ s) bs len stops
        have size : charWidth b = (String.utf8EncodeChar c).length := by rw [spelled.width, ← bytes]; rfl
        rw [utf8_append, utf8_singleton, List.append_assoc, ← bytes, List.length_append, List.length_cons, ← spelled.width] at grown
        exact grown

theorem utf8Error_none {bs : Bytes} (valid : utf8Error bs = none) : ∃ s, bs = utf8 s := by
  rcases utf8Error_spec bs with ⟨-, text⟩ | ⟨e, error, -⟩
  · exact text
  · rw [valid] at error
    cases error

theorem utf8Error_some {bs : Bytes} {e : Utf8Error} (error : utf8Error bs = some e) : Broken bs e := by
  rcases utf8Error_spec bs with ⟨none_, -⟩ | ⟨e', same, broken⟩
  · rw [none_] at error
    cases error
  · rw [same] at error
    cases error
    exact broken

@[simp] theorem validText_utf8 (s : String) : validText (utf8 s) = s := by rw [validText, fromUtf8_utf8, Option.getD_some]

/-- What can never become text is a part of the bytes. -/
theorem Broken.shorter {bs : Bytes} {e : Utf8Error} {n : Nat} (broken : Broken bs e) (bad : e.errorLen = some n) :
    (bs.drop (e.validUpTo + n)).length < bs.length := by
  cases broken with
  | at_ s bs len stops =>
    have same : len = some n := bad
    rw [same] at stops
    obtain ⟨some_, inside, -⟩ := stops
    rw [List.length_drop, List.length_append]
    show (utf8 s).length + bs.length - ((utf8 s).length + n) < _
    omega

/-- `from_utf8_lossy`: every part that is no text is replaced. -/
def utf8Lossy (bs : Bytes) : String :=
  match _ : utf8Error bs with
  | none => validText bs
  | some e =>
    match _ : e.errorLen with
    | none => validText (bs.take e.validUpTo) ++ "\ufffd"
    | some n => validText (bs.take e.validUpTo) ++ "\ufffd" ++ utf8Lossy (bs.drop (e.validUpTo + n))
termination_by bs.length
decreasing_by exact (utf8Error_some (by assumption)).shorter (by assumption)

end Harpoon.Wire
