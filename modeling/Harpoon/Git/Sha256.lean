import Harpoon.Hash.Standards

/-!
# Digests of webhook deliveries

SHA-256 and HMAC-SHA-256 as the engine computes them (`sha256.rs`), over arrays of 32-bit words.
-/

namespace Harpoon.Git.Sha256

open Hash (Bytes bytesOf)

def k : List (BitVec 32) := [
  0x428a2f98, 0x71374491, 0xb5c0fbcf, 0xe9b5dba5, 0x3956c25b, 0x59f111f1, 0x923f82a4, 0xab1c5ed5, 0xd807aa98,
  0x12835b01, 0x243185be, 0x550c7dc3, 0x72be5d74, 0x80deb1fe, 0x9bdc06a7, 0xc19bf174, 0xe49b69c1, 0xefbe4786,
  0x0fc19dc6, 0x240ca1cc, 0x2de92c6f, 0x4a7484aa, 0x5cb0a9dc, 0x76f988da, 0x983e5152, 0xa831c66d, 0xb00327c8,
  0xbf597fc7, 0xc6e00bf3, 0xd5a79147, 0x06ca6351, 0x14292967, 0x27b70a85, 0x2e1b2138, 0x4d2c6dfc, 0x53380d13,
  0x650a7354, 0x766a0abb, 0x81c2c92e, 0x92722c85, 0xa2bfe8a1, 0xa81a664b, 0xc24b8b70, 0xc76c51a3, 0xd192e819,
  0xd6990624, 0xf40e3585, 0x106aa070, 0x19a4c116, 0x1e376c08, 0x2748774c, 0x34b0bcb5, 0x391c0cb3, 0x4ed8aa4a,
  0x5b9cca4f, 0x682e6ff3, 0x748f82ee, 0x78a5636f, 0x84c87814, 0x8cc70208, 0x90befffa, 0xa4506ceb, 0xbef9a3f7,
  0xc67178f2]

def h0 : List (BitVec 32) :=
  [0x6a09e667, 0xbb67ae85, 0x3c6ef372, 0xa54ff53a, 0x510e527f, 0x9b05688c, 0x1f83d9ab, 0x5be0cd19]

/-- Zeros up to eight bytes before the end of a block. -/
def pushZeros (msg : Bytes) : Bytes :=
  if msg.length % 64 ≠ 56 then pushZeros (msg ++ [0]) else msg
termination_by (120 - msg.length % 64) % 64
decreasing_by
  rw [List.length_append, List.length_singleton]
  omega

def padded (data : Bytes) : Bytes := pushZeros (data ++ [0x80]) ++ bytesOf 8 (UInt64.ofNat data.length * 8).toNat

/-- The pieces of `n` elements, and a last one of what remains. -/
def chunks {α : Type} (n : Nat) (xs : List α) : List (List α) :=
  if n = 0 ∨ xs = [] then [] else xs.take n :: chunks n (xs.drop n)
termination_by xs.length
decreasing_by
  have := List.length_pos_iff.mpr (not_or.mp ‹¬ (n = 0 ∨ xs = [])›).2
  rw [List.length_drop]
  omega

def fromBeBytes (bs : Bytes) : BitVec 32 := BitVec.ofNat 32 (bs.foldl (fun x b => x * 256 + b.toNat) 0)

/-- The words of a block, in front of those to be computed. -/
def blockWords (chunk : Bytes) : List (BitVec 32) :=
  (chunks 4 chunk).zipIdx.foldl (fun w x => w.set x.2 (fromBeBytes x.1)) (List.replicate 64 0)

/-- The word `i`, from those before it. -/
def extend (w : List (BitVec 32)) (i : Nat) : List (BitVec 32) :=
  let s0 := (w.getD (i - 15) 0).rotateRight 7 ^^^ (w.getD (i - 15) 0).rotateRight 18 ^^^ (w.getD (i - 15) 0) >>> 3
  let s1 := (w.getD (i - 2) 0).rotateRight 17 ^^^ (w.getD (i - 2) 0).rotateRight 19 ^^^ (w.getD (i - 2) 0) >>> 10
  w.set i (w.getD (i - 16) 0 + s0 + w.getD (i - 7) 0 + s1)

def mix (w v : List (BitVec 32)) (i : Nat) : List (BitVec 32) :=
  let s1 := (v.getD 4 0).rotateRight 6 ^^^ (v.getD 4 0).rotateRight 11 ^^^ (v.getD 4 0).rotateRight 25
  let ch := (v.getD 4 0 &&& v.getD 5 0) ^^^ (~~~(v.getD 4 0) &&& v.getD 6 0)
  let t1 := v.getD 7 0 + s1 + ch + k.getD i 0 + w.getD i 0
  let s0 := (v.getD 0 0).rotateRight 2 ^^^ (v.getD 0 0).rotateRight 13 ^^^ (v.getD 0 0).rotateRight 22
  let maj := (v.getD 0 0 &&& v.getD 1 0) ^^^ (v.getD 0 0 &&& v.getD 2 0) ^^^ (v.getD 1 0 &&& v.getD 2 0)
  let t2 := s0 + maj
  [t1 + t2, v.getD 0 0, v.getD 1 0, v.getD 2 0, v.getD 3 0 + t1, v.getD 4 0, v.getD 5 0, v.getD 6 0]

/-- The hash after one more block. -/
def block (h : List (BitVec 32)) (chunk : Bytes) : List (BitVec 32) :=
  let w := (List.range' 16 48).foldl extend (blockWords chunk)
  let v := (List.range 64).foldl (mix w) h
  (List.range 8).foldl (fun h i => h.set i (h.getD i 0 + v.getD i 0)) h

def sha256 (data : Bytes) : Bytes :=
  ((chunks 64 (padded data)).foldl block h0).flatMap fun x => bytesOf 4 x.toNat

/-- Exactly `n` bytes: the first ones, or zeros after all of them. -/
def resize (n : Nat) (k : Bytes) : Bytes := k.take n ++ List.replicate (n - k.length) 0

def hmacSha256 (key data : Bytes) : Bytes :=
  let k := resize 64 (if 64 < key.length then sha256 key else key)
  let ih := sha256 (k.map (· ^^^ 0x36) ++ data)
  sha256 (k.map (· ^^^ 0x5c) ++ ih)

end Harpoon.Git.Sha256
