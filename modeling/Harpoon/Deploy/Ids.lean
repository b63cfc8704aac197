import Harpoon.Wire.Fields

/-!
# Identifiers

An identifier is 128 bits and a kind; its text is the kind's prefix, an underscore and 26 characters
of Crockford base 32 (`ids.rs`). The four kinds share one definition. A release has no bits of its
own: it is the deployment whose build made it, under another prefix.
-/

namespace Harpoon.Deploy

/-- The kinds of identifier. -/
inductive IdKind where
  | project
  | application
  | deployment
  | release
  deriving DecidableEq, Repr

def IdKind.prefixStr : IdKind → String
  | .project => "prj"
  | .application => "app"
  | .deployment => "dep"
  | .release => "rel"

/-- An identifier of one kind. -/
structure Id (kind : IdKind) where
  raw : BitVec 128
  deriving DecidableEq, Repr

abbrev ApplicationId := Id .application
abbrev DeploymentId := Id .deployment
abbrev ReleaseId := Id .release

namespace Id

def alphabet : List Char := "0123456789ABCDEFGHJKMNPQRSTVWXYZ".toList

/-- The last `n` base-32 digits of `v`, in front of `rest`. -/
def digits : Nat → BitVec 128 → List Char → List Char
  | 0, _, rest => rest
  | n + 1, v, rest => digits n (v >>> 5) (alphabet.getD (v.toNat % 32) '0' :: rest)

/-- The 26 characters of an identifier's body. -/
def encode (value : BitVec 128) : String := String.ofList (digits 26 value [])

/-- Why a text is not an identifier. -/
inductive ParseIdError where
  | wrongPrefix (expected : String)
  | badLength
  | badCharacter (c : Char)
  | overflow
  deriving DecidableEq, Repr

/-- The value of the base-32 digits `cs` after digits of value `v`. The first of 26 digits has only
three bits. -/
def readBody : Bool → BitVec 128 → List Char → Except ParseIdError (BitVec 128)
  | _, v, [] => .ok v
  | first, v, c :: cs =>
    match alphabet.idxOf? c with
    | none => .error (.badCharacter c)
    | some d =>
      if first ∧ 7 < d then .error .overflow
      else readBody false ((v <<< 5) ||| BitVec.ofNat 128 d) cs

def decode (body : String) : Except ParseIdError (BitVec 128) :=
  if body.utf8ByteSize ≠ 26 then .error .badLength else readBody true 0 body.toList

variable {kind : IdKind}

def asStr (i : Id kind) : String := kind.prefixStr ++ "_" ++ encode i.raw

instance : ToString (Id kind) := ⟨asStr⟩

/-- Read an identifier of one kind (`from_str`). -/
def parse (kind : IdKind) (s : String) : Except ParseIdError (Id kind) :=
  match Wire.stripPrefix (kind.prefixStr ++ "_") s with
  | none => .error (.wrongPrefix kind.prefixStr)
  | some rest => Id.mk <$> decode rest

/-! ### The text of an identifier -/

theorem alphabet_ascii : ∀ c ∈ alphabet, c.utf8Size = 1 := Wire.forall_mem_of_all (by decide)

theorem length_alphabet : alphabet.length = 32 := by decide

theorem idxOf?_alphabet : ∀ d : Fin 32, alphabet.idxOf? (alphabet.getD d '0') = some d.val := by
  decide

theorem getD_alphabet_mem (v : BitVec 128) : alphabet.getD (v.toNat % 32) '0' ∈ alphabet := by
  have inside : v.toNat % 32 < alphabet.length := length_alphabet ▸ Nat.mod_lt _ (by decide)
  rw [List.getD, List.getElem?_eq_getElem inside]
  exact List.getElem_mem inside

theorem mem_digits {n : Nat} {v : BitVec 128} {rest : List Char} {c : Char} (mem : c ∈ digits n v rest) :
    c ∈ alphabet ∨ c ∈ rest := by
  induction n generalizing v rest with
  | zero => exact .inr mem
  | succ n ih =>
    rcases ih mem with inside | inside
    · exact .inl inside
    · rcases List.mem_cons.mp inside with rfl | inside
      · exact .inl (getD_alphabet_mem v)
      · exact .inr inside

theorem length_digits {n : Nat} {v : BitVec 128} {rest : List Char} :
    (digits n v rest).length = n + rest.length := by
  induction n generalizing v rest with
  | zero => exact (Nat.zero_add _).symm
  | succ n ih => rw [digits, ih, List.length_cons]; omega

/-- One more digit after a value `a`. -/
theorem shift_or_digit {a d : Nat} (small : d < 32) :
    (BitVec.ofNat 128 a <<< 5) ||| BitVec.ofNat 128 d = BitVec.ofNat 128 (32 * a + d) := by
  have joined : a <<< 5 ||| d = 32 * a + d := by
    rw [← Nat.shiftLeft_add_eq_or_of_lt small, Nat.shiftLeft_eq, Nat.mul_comm]
  refine BitVec.eq_of_toNat_eq ?_
  rw [BitVec.toNat_or, BitVec.toNat_shiftLeft, BitVec.toNat_ofNat, BitVec.toNat_ofNat, BitVec.toNat_ofNat,
    ← joined, Nat.or_mod_two_pow, Nat.shiftLeft_eq, Nat.shiftLeft_eq, Nat.mod_mul_mod]

/-- Reading the digit of `v` after a value. -/
theorem readBody_digit {first : Bool} {a : Nat} {v : BitVec 128} {rest : List Char}
    (fits : first = true → v.toNat % 32 ≤ 7) :
    readBody first (BitVec.ofNat 128 a) (alphabet.getD (v.toNat % 32) '0' :: rest) =
      readBody false (BitVec.ofNat 128 (32 * a + v.toNat % 32)) rest := by
  have small : v.toNat % 32 < 32 := Nat.mod_lt _ (by decide)
  rw [readBody, idxOf?_alphabet ⟨v.toNat % 32, small⟩]
  dsimp only
  rw [if_neg fun high => Nat.not_lt.mpr (fits high.1) high.2, shift_or_digit small]

/-- Reading the last `n + 1` digits of `v`, which has no more than three bits beyond `n` digits. -/
theorem readBody_digits {n : Nat} {v : BitVec 128} {rest : List Char} (high : v.toNat >>> (5 * n) < 8) :
    readBody true 0 (digits (n + 1) v rest) = readBody false (BitVec.ofNat 128 v.toNat) rest := by
  induction n generalizing v rest with
  | zero =>
    have small : v.toNat < 8 := high
    have same : v.toNat % 32 = v.toNat := Nat.mod_eq_of_lt (by omega)
    rw [digits, digits]
    refine (readBody_digit (a := 0) fun _ => by omega).trans ?_
    rw [same, Nat.mul_zero, Nat.zero_add]
  | succ n ih =>
    have shifted : (v >>> 5).toNat = v.toNat / 32 := by
      rw [BitVec.toNat_ushiftRight, Nat.shiftRight_eq_div_pow]
    have high' : (v >>> 5).toNat >>> (5 * n) < 8 := by
      rw [BitVec.toNat_ushiftRight, ← Nat.shiftRight_add, Nat.add_comm]
      exact high
    rw [digits, ih high', readBody_digit (fun other => by cases other), shifted, Nat.div_add_mod]

theorem decode_encode (v : BitVec 128) : decode (encode v) = .ok v := by
  have high : v.toNat >>> (5 * 25) < 8 := by
    rw [Nat.shiftRight_eq_div_pow]
    exact Nat.div_lt_of_lt_mul (Nat.lt_of_lt_of_le v.isLt (by decide))
  have ascii : ∀ c ∈ digits 26 v [], c.utf8Size = 1 := by
    intro c mem
    rcases mem_digits mem with inside | inside
    · exact alphabet_ascii c inside
    · cases inside
  have size : (encode v).utf8ByteSize = 26 := by
    rw [encode, Wire.utf8ByteSize_ofList ascii, length_digits]
    rfl
  rw [decode, if_neg fun other => other size, encode, String.toList_ofList, readBody_digits high, readBody,
    BitVec.ofNat_toNat, BitVec.setWidth_eq]

/-- The characters of an identifier. -/
theorem mem_asStr {i : Id kind} {c : Char} (mem : c ∈ i.asStr.toList) :
    c ∈ (kind.prefixStr ++ "_").toList ∨ c ∈ alphabet := by
  rw [asStr, String.toList_append, encode, String.toList_ofList] at mem
  rcases List.mem_append.mp mem with inside | inside
  · exact .inl inside
  · rcases mem_digits inside with inside | inside
    · exact .inr inside
    · cases inside

/-- An identifier contains no separator. -/
theorem asStr_free {i : Id kind} {sep : Char}
    (foreign : sep ∈ ['\x00', '\t', '\n', '\r', ',', ';', '=', '-', '/']) : Wire.Free sep i.asStr := by
  have letters : ∀ sep ∈ ['\x00', '\t', '\n', '\r', ',', ';', '=', '-', '/'], sep ∉ alphabet ∧
      sep ∉ (kind.prefixStr ++ "_").toList := by
    cases kind <;> exact Wire.forall_mem_of_all (by decide)
  intro mem
  rcases mem_asStr mem with inside | inside
  · exact (letters sep foreign).2 inside
  · exact (letters sep foreign).1 inside

/-- The digits of an identifier that can be read. -/
theorem mem_of_readBody {first : Bool} {v w : BitVec 128} {cs : List Char} (read : readBody first v cs = .ok w) :
    ∀ c ∈ cs, c ∈ alphabet := by
  induction cs generalizing first v with
  | nil => intro c mem; cases mem
  | cons d cs ih =>
    rw [readBody] at read
    split at read
    · cases read
    next known =>
      split at read
      · cases read
      · intro c mem
        rcases List.mem_cons.mp mem with rfl | mem
        · refine Classical.byContradiction fun foreign => ?_
          rw [List.idxOf?_eq_none_iff.mpr foreign] at known
          cases known
        · exact ih read c mem

/-- The characters of a text that is read as an identifier. -/
theorem mem_of_parse {i : Id kind} {s : String} (read : parse kind s = .ok i) :
    ∀ c ∈ s.toList, c ∈ (kind.prefixStr ++ "_").toList ∨ c ∈ alphabet := by
  rw [parse] at read
  split at read
  · cases read
  next body strips =>
    intro c mem
    rw [Wire.eq_of_stripPrefix strips, String.toList_append] at mem
    rcases List.mem_append.mp mem with mem | mem
    · exact .inl mem
    · refine .inr ?_
      rw [decode] at read
      split at read
      · cases read
      · cases whole : readBody true 0 body.toList with
        | error e =>
          rw [whole] at read
          cases read
        | ok v => exact mem_of_readBody whole c mem

theorem asStr_ne_dash {i : Id kind} : i.asStr ≠ "-" := by
  intro same
  have free : Wire.Free '-' i.asStr := asStr_free (by decide)
  rw [same] at free
  exact free (by decide)

/-- An identifier is read back from its text. -/
theorem parse_asStr (i : Id kind) : parse kind i.asStr = .ok i := by
  rw [parse, asStr, Wire.stripPrefix_append]
  dsimp only
  rw [decode_encode]
  rfl

theorem asStr_inj {i j : Id kind} (same : i.asStr = j.asStr) : i = j := by
  have read := parse_asStr j
  rw [← same, parse_asStr i] at read
  exact Except.ok.inj read

/-! ### Only its text -/

theorem digits_add {m n : Nat} {v : BitVec 128} {rest : List Char} :
    digits (m + n) v rest = digits m (v >>> (5 * n)) (digits n v rest) := by
  induction n generalizing v rest with
  | zero => rw [Nat.mul_zero, BitVec.ushiftRight_zero]; rfl
  | succ n ih =>
    rw [← Nat.add_assoc, digits, digits, ih, ← BitVec.shiftRight_add, show 5 * (n + 1) = 5 + 5 * n by omega]

theorem digit_of_idxOf? {c : Char} {d : Nat} (known : alphabet.idxOf? c = some d) :
    d < 32 ∧ alphabet.getD d '0' = c := by
  obtain ⟨inside, same, _⟩ := List.idxOf?_eq_some_iff.mp known
  refine ⟨length_alphabet ▸ inside, ?_⟩
  rw [List.getD, List.getElem?_eq_getElem inside]
  exact same

/-- Digits read after the value `a`, with room for them, are the last digits of what is read. -/
theorem digits_of_readBody {a : Nat} {w : BitVec 128} {cs : List Char}
    (room : (a + 1) * Nat.pow 32 cs.length ≤ Nat.pow 2 128) (read : readBody false (BitVec.ofNat 128 a) cs = .ok w)
    (rest : List Char) : digits cs.length w rest = cs ++ rest ∧ w.toNat >>> (5 * cs.length) = a := by
  induction cs generalizing a with
  | nil =>
    cases read
    have small : a < Nat.pow 2 128 := Nat.lt_of_succ_le (Nat.le_trans (Nat.le_mul_of_pos_right _ (by decide)) room)
    exact ⟨rfl, Nat.mod_eq_of_lt small⟩
  | cons c cs ih =>
    rw [readBody] at read
    cases known : alphabet.idxOf? c with
    | none =>
      rw [known] at read
      cases read
    | some d =>
      obtain ⟨small, digit⟩ := digit_of_idxOf? known
      rw [known] at read
      dsimp only at read
      rw [if_neg fun high => Bool.false_ne_true high.1, shift_or_digit small] at read
      have room' : (32 * a + d + 1) * Nat.pow 32 cs.length ≤ Nat.pow 2 128 := by
        refine Nat.le_trans (Nat.mul_le_mul_right _ (show 32 * a + d + 1 ≤ (a + 1) * 32 by omega)) ?_
        rw [Nat.mul_assoc, Nat.mul_comm 32]
        exact room
      obtain ⟨last, high⟩ := ih room' read
      have high' : (w >>> (5 * cs.length)).toNat = 32 * a + d := by rw [BitVec.toNat_ushiftRight, high]
      constructor
      · have one : (32 * a + d) % 32 = d := by omega
        rw [List.length_cons, Nat.add_comm cs.length 1, digits_add, last, digits, digits, high', one, digit]
        rfl
      · rw [List.length_cons, Nat.mul_succ, Nat.shiftRight_add, high, Nat.shiftRight_eq_div_pow]
        omega

theorem eq_encode_of_decode {v : BitVec 128} {body : String} (read : decode body = .ok v) : body = encode v := by
  rw [decode] at read
  split at read
  · cases read
  next size =>
    have ascii : ∀ c ∈ body.toList, c.utf8Size = 1 := fun c mem => alphabet_ascii c (mem_of_readBody read c mem)
    have length := Wire.utf8ByteSize_ofList ascii
    rw [String.ofList_toList, Decidable.of_not_not size] at length
    cases chars : body.toList with
    | nil =>
      rw [chars] at length
      cases length
    | cons c cs =>
      rw [chars] at length read
      have rest : cs.length = 25 := Nat.succ.inj length.symm
      rw [readBody] at read
      cases known : alphabet.idxOf? c with
      | none =>
        rw [known] at read
        cases read
      | some d =>
        obtain ⟨_, digit⟩ := digit_of_idxOf? known
        rw [known] at read
        dsimp only at read
        split at read
        · cases read
        next low =>
          have low : d ≤ 7 := Nat.le_of_not_lt fun high => low ⟨rfl, high⟩
          have start : ((0 : BitVec 128) <<< 5) ||| BitVec.ofNat 128 d = BitVec.ofNat 128 d := by simp
          rw [start] at read
          have room : (d + 1) * Nat.pow 32 cs.length ≤ Nat.pow 2 128 := by
            rw [rest]
            exact Nat.le_trans (Nat.mul_le_mul_right _ (show d + 1 ≤ 8 by omega)) (by decide)
          obtain ⟨last, high⟩ := digits_of_readBody room read []
          have high' : (v >>> (5 * cs.length)).toNat = d := by rw [BitVec.toNat_ushiftRight, high]
          have one : d % 32 = d := Nat.mod_eq_of_lt (by omega)
          have whole : digits (1 + cs.length) v [] = c :: cs := by
            rw [digits_add, last, digits, digits, high', one, digit, List.append_nil]
          rw [rest] at whole
          rw [encode, whole, ← chars, String.ofList_toList]

/-- Only its text is read as an identifier. -/
theorem parse_iff {i : Id kind} {s : String} : parse kind s = .ok i ↔ s = i.asStr := by
  constructor
  · intro read
    rw [parse] at read
    split at read
    · cases read
    next body strips =>
      cases value : decode body with
      | error e =>
        rw [value] at read
        cases read
      | ok v =>
        rw [value] at read
        cases read
        rw [Wire.eq_of_stripPrefix strips, eq_encode_of_decode value]
        rfl
  · rintro rfl
    exact parse_asStr i

end Id

/-- The release a deployment's build makes: the same bits, as a release. -/
def ReleaseId.fromDeployment (d : DeploymentId) : ReleaseId := ⟨d.raw⟩

/-- The deployment whose build made the release. -/
def ReleaseId.deployment (r : ReleaseId) : DeploymentId := ⟨r.raw⟩

@[simp] theorem ReleaseId.deployment_fromDeployment (d : DeploymentId) :
    (ReleaseId.fromDeployment d).deployment = d := rfl

/-! ## Docker labels -/

namespace Labels

def managed : String := "io.harpoon.managed"
def app : String := "io.harpoon.app"
def deployment : String := "io.harpoon.deployment"

/-- The exact label set for one deployment of one application. -/
def forDeployment (a : ApplicationId) (d : DeploymentId) : List (String × String) :=
  [(managed, "true"), (app, a.asStr), (deployment, d.asStr)]

end Labels

/-- The name of the container a restoration creates for the deployment `failed` (`serving.rs`). -/
def restoredContainerName (failed : DeploymentId) : String := s!"hp-{failed.asStr}-restored"

end Harpoon.Deploy

/-!
## Making identifiers

A generator makes identifiers from a clock and random bits (`ids.rs`): 48 bits of milliseconds, then 80 random bits that
count up within a millisecond. When they are used up the time is stepped forward.
-/

namespace Harpoon.Deploy

def tsMask : Nat := 0xffffffffffff

def randMask : Nat := 0xffffffffffffffffffff

structure IdGenerator where
  lastMs : Nat
  lastRand : Nat
  started : Bool
  deriving DecidableEq, Repr

/-- What a call may ask for. -/
inductive IdRequest where
  | project
  | application
  | deployment
  deriving DecidableEq, Repr

def IdRequest.kind : IdRequest → IdKind
  | .project => .project
  | .application => .application
  | .deployment => .deployment

/-- One call: what the clock reads, and what the source of entropy would fill ten bytes with. -/
structure IdCall where
  request : IdRequest
  nowMs : UInt64
  fill : Except String (Vector UInt8 10)

/-- The number that the bytes spell, the first of them first. -/
def randOf (b : List UInt8) : Nat := b.foldl (fun a x => a <<< 8 ||| x.toNat) 0

namespace IdGenerator

def new : IdGenerator := ⟨0, 0, false⟩

/-- The next identifier, and the generator behind it. When the source of entropy fails nothing changes. -/
def nextRaw (g : IdGenerator) (nowMs : UInt64) (fill : Except String (Vector UInt8 10)) :
    Except String (BitVec 128) × IdGenerator :=
  let now := nowMs.toNat &&& tsMask
  let ms := if g.started then max now g.lastMs else now
  if g.started ∧ ms = g.lastMs ∧ g.lastRand < randMask then
    let rand := g.lastRand + 1
    (.ok (BitVec.ofNat 128 (ms <<< 80 ||| rand)), ⟨ms, rand, true⟩)
  else
    -- the counter is used up within one millisecond: step time forward
    let ms := if g.started ∧ ms = g.lastMs then (ms + 1) &&& tsMask else ms
    match fill with
    | .error e => (.error e, g)
    | .ok b =>
      let rand := randOf b.toList
      (.ok (BitVec.ofNat 128 (ms <<< 80 ||| rand)), ⟨ms, rand, true⟩)

/-- An identifier of one kind. -/
def next (g : IdGenerator) (kind : IdKind) (nowMs : UInt64) (fill : Except String (Vector UInt8 10)) :
    Except String (Id kind) × IdGenerator :=
  let (raw, g) := g.nextRaw nowMs fill
  (Id.mk <$> raw, g)

def project (g : IdGenerator) := g.next .project

def application (g : IdGenerator) := g.next .application

def deployment (g : IdGenerator) := g.next .deployment

/-- The identifiers that a sequence of calls returns, with their kinds. -/
def issued (g : IdGenerator) : List IdCall → List ((kind : IdKind) × Id kind)
  | [] => []
  | c :: cs =>
    match g.next c.request.kind c.nowMs c.fill with
    | (.ok i, g) => ⟨c.request.kind, i⟩ :: issued g cs
    | (.error _, g) => issued g cs

end IdGenerator

end Harpoon.Deploy
