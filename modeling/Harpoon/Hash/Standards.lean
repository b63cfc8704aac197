/-!
# Message digests

SHA-256 over strings of bits, as FIPS 180-4 has it, and HMAC over any hash of bytes, as RFC 2104 has it. A digest is none where the
standard gives none.
-/

namespace Harpoon.Hash

abbrev Bytes := List UInt8

abbrev Word := BitVec 32

/-! ## Bits and bytes -/

/-- The `n` low bits of a number, the most significant one first. -/
def bitsOf : Nat → Nat → List Bool
  | 0, _ => []
  | n + 1, x => bitsOf n (x / 2) ++ [decide (x % 2 = 1)]

/-- The `n` low bytes of a number, the most significant one first. -/
def bytesOf : Nat → Nat → Bytes
  | 0, _ => []
  | n + 1, x => bytesOf n (x / 256) ++ [UInt8.ofNat x]

/-- The number that bits spell. -/
def valueOf (bits : List Bool) : Nat := bits.foldl (fun x b => 2 * x + b.toNat) 0

def bits (bs : Bytes) : List Bool := bs.flatMap fun b => bitsOf 8 b.toNat

/-! ## SHA-256 -/

namespace Sha256

/-! ### Functions and constants (4.1.2, 4.2.2, 5.3.3) -/

def rotr (n : Nat) (x : Word) : Word := x >>> n ||| x <<< (32 - n)

def shr (n : Nat) (x : Word) : Word := x >>> n

def ch (x y z : Word) : Word := (x &&& y) ^^^ (~~~x &&& z)

def maj (x y z : Word) : Word := (x &&& y) ^^^ (x &&& z) ^^^ (y &&& z)

def bigSigma0 (x : Word) : Word := rotr 2 x ^^^ rotr 13 x ^^^ rotr 22 x

def bigSigma1 (x : Word) : Word := rotr 6 x ^^^ rotr 11 x ^^^ rotr 25 x

def smallSigma0 (x : Word) : Word := rotr 7 x ^^^ rotr 18 x ^^^ shr 3 x

def smallSigma1 (x : Word) : Word := rotr 17 x ^^^ rotr 19 x ^^^ shr 10 x

def isPrime (n : Nat) : Bool := 2 ≤ n && (List.range n).all fun d => d < 2 || n % d ≠ 0

/-- The first sixty-four primes. -/
def primes : List Nat := (List.range 312).filter isPrime

/-- The greatest number from `low` on, and less than `low` and `2ⁱ` more, whose power is at most `n`. -/
def rootFrom (power n : Nat) : Nat → Nat → Nat
  | 0, low => low
  | i + 1, low => rootFrom power n i (if Nat.pow (low + 1 <<< i) power ≤ n then low + 1 <<< i else low)

/-- The first thirty-two bits of the fractional part of a root of `n`. -/
def fraction (power n : Nat) : Word := BitVec.ofNat 32 (rootFrom power (n <<< (32 * power)) 40 0)

/-- The constants, from the cube roots of the primes. -/
def constant (t : Nat) : Word := (primes.map (fraction 3)).getD t 0

/-- A hash value, and the working variables. -/
structure Variables where
  a : Word
  b : Word
  c : Word
  d : Word
  e : Word
  f : Word
  g : Word
  h : Word
  deriving DecidableEq, Repr

/-- The initial hash value, from the square roots of the first eight primes. -/
def initial : Variables :=
  ⟨fraction 2 2, fraction 2 3, fraction 2 5, fraction 2 7, fraction 2 11, fraction 2 13, fraction 2 17, fraction 2 19⟩

/-! ### Padding and parsing (5.1.1, 5.2.1) -/

/-- The least number of zeros that brings a message of `l` bits, and a one, to 448 modulo 512. -/
def zeroBits (l : Nat) : Nat := ((List.range 512).find? fun k => (l + 1 + k) % 512 = 448).getD 0

def pad (m : List Bool) : List Bool := m ++ ([true] ++ (List.replicate (zeroBits m.length) false ++ bitsOf 64 m.length))

/-- The words of a string of bits. -/
def word (m : List Bool) (j : Nat) : Word := BitVec.ofNat 32 (valueOf ((m.drop (32 * j)).take 32))

/-! ### Computation (6.2.2) -/

/-- The message schedule of a block. -/
def schedule (m : Nat → Word) (t : Nat) : Word :=
  if t < 16 then m t
  else smallSigma1 (schedule m (t - 2)) + schedule m (t - 7) + smallSigma0 (schedule m (t - 15)) + schedule m (t - 16)
termination_by t

def round (k w : Word) (s : Variables) : Variables :=
  let t1 := s.h + bigSigma1 s.e + ch s.e s.f s.g + k + w
  let t2 := bigSigma0 s.a + maj s.a s.b s.c
  ⟨t1 + t2, s.a, s.b, s.c, s.d + t1, s.e, s.f, s.g⟩

def add (h s : Variables) : Variables :=
  ⟨s.a + h.a, s.b + h.b, s.c + h.c, s.d + h.d, s.e + h.e, s.f + h.f, s.g + h.g, s.h + h.h⟩

/-- The hash value after one more block. -/
def compress (h : Variables) (m : Nat → Word) : Variables :=
  add h ((List.range 64).foldl (fun s t => round (constant t) (schedule m t) s) h)

/-- 2⁶⁴, which the length of a message must be below. -/
def bitLimit : Nat := 18446744073709551616

def digest (m : List Bool) : Option Variables :=
  if m.length < bitLimit then
    some ((List.range ((pad m).length / 512)).foldl (fun h i => compress h fun t => word (pad m) (16 * i + t)) initial)
  else none

def Variables.bytes (s : Variables) : Bytes := [s.a, s.b, s.c, s.d, s.e, s.f, s.g, s.h].flatMap fun w => bytesOf 4 w.toNat

/-- The digest of bytes, in bytes. -/
def hash (message : Bytes) : Option Bytes := (digest (bits message)).map Variables.bytes

end Sha256

/-! ## HMAC -/

def ipad : UInt8 := 0x36

def opad : UInt8 := 0x5c

def xorBytes (xs ys : Bytes) : Bytes := List.zipWith (· ^^^ ·) xs ys

/-- HMAC over a hash that works on blocks of `B` bytes. -/
def hmac (hash : Bytes → Option Bytes) (B : Nat) (key text : Bytes) : Option Bytes := do
  let key ← if key.length ≤ B then some key else hash key
  let key := key ++ List.replicate (B - key.length) 0
  let inner ← hash (xorBytes key (List.replicate B ipad) ++ text)
  hash (xorBytes key (List.replicate B opad) ++ inner)

end Harpoon.Hash
