import Harpoon.Git.Sha256

/-!
# The digests against their standards

The engine pads with bytes and keeps its words in arrays; the standard is about bits, and its words are given by
recursion. Both agree on every message that has a digest. A block is followed word by word, and a round by the eight
working variables.
-/

namespace Harpoon.Git.Sha256

open Hash (Bytes Word bits bitsOf bytesOf valueOf)
open Hash.Sha256 (Variables word pad zeroBits rotr smallSigma0 smallSigma1 bitLimit)

section

variable {α β : Type} {bs : Bytes} {n l x t i : Nat}

/-! ## Bits of bytes -/

theorem bits_append (as bs : Bytes) : bits (as ++ bs) = bits as ++ bits bs := List.flatMap_append

theorem bitsOf_length : (bitsOf n x).length = n := by
  induction n generalizing x with
  | zero => rfl
  | succ n ih => rw [bitsOf, List.length_append, ih, List.length_singleton]

theorem bits_length (bs : Bytes) : (bits bs).length = 8 * bs.length := by
  induction bs with
  | nil => rfl
  | cons b bs ih =>
    rw [bits, List.flatMap_cons, List.length_append, bitsOf_length, ← bits, ih, List.length_cons]
    omega

theorem bits_drop (bs : Bytes) (n : Nat) : (bits bs).drop (8 * n) = bits (bs.drop n) := by
  rcases Nat.lt_or_ge bs.length n with short | long
  · rw [List.drop_eq_nil_of_le (by rw [bits_length]; omega), List.drop_eq_nil_of_le (Nat.le_of_lt short)]
    rfl
  · have front : (bits (bs.take n)).length = 8 * n := by rw [bits_length, List.length_take, Nat.min_eq_left long]
    have split := bits_append (bs.take n) (bs.drop n)
    rw [List.take_append_drop] at split
    rw [split, ← front, List.drop_left]

theorem bits_take (bs : Bytes) (n : Nat) : (bits bs).take (8 * n) = bits (bs.take n) := by
  rcases Nat.lt_or_ge bs.length n with short | long
  · rw [List.take_of_length_le (by rw [bits_length]; omega), List.take_of_length_le (Nat.le_of_lt short)]
  · have front : (bits (bs.take n)).length = 8 * n := by rw [bits_length, List.length_take, Nat.min_eq_left long]
    have split := bits_append (bs.take n) (bs.drop n)
    rw [List.take_append_drop] at split
    rw [split, ← front, List.take_left]

theorem bits_replicate (n : Nat) : bits (List.replicate n 0) = List.replicate (8 * n) false := by
  induction n with
  | zero => rfl
  | succ n ih =>
    have zero : bitsOf 8 0 = List.replicate 8 false := by decide
    rw [List.replicate_succ, bits, List.flatMap_cons, ← bits, ih, UInt8.toNat_zero, zero, List.replicate_append_replicate]
    congr 1
    omega

/-- Eight bits at a time are one byte at a time. -/
theorem bits_bytesOf (n x : Nat) : bits (bytesOf n x) = bitsOf (8 * n) x := by
  induction n generalizing x with
  | zero => rfl
  | succ n ih =>
    have byte : bits [UInt8.ofNat x] = bitsOf 8 (x % 256) := by
      rw [bits, List.flatMap_cons, List.flatMap_nil, List.append_nil, UInt8.toNat_ofNat']
    rw [bytesOf, bits_append, ih, byte, show 8 * (n + 1) = 8 * n + 8 from by omega]
    simp only [bitsOf, List.append_assoc, List.nil_append, List.cons_append]
    have high : x / 2 / 2 / 2 / 2 / 2 / 2 / 2 / 2 = x / 256 := by omega
    rw [high]
    congr 1
    simp only [List.cons.injEq, decide_eq_decide, and_true]
    omega

theorem value_from (bs : Bytes) (x : Nat) :
    (bits bs).foldl (fun x b => 2 * x + b.toNat) x = bs.foldl (fun x b => x * 256 + b.toNat) x := by
  induction bs generalizing x with
  | nil => rfl
  | cons b bs ih =>
    have byte : (bitsOf 8 b.toNat).foldl (fun x b => 2 * x + b.toNat) x = x * 256 + b.toNat := by
      have small := b.toNat_lt
      have bit (y : Nat) : (decide (y % 2 = 1)).toNat = y % 2 := by
        rcases Nat.mod_two_eq_zero_or_one y with even | odd
        · rw [even]
          rfl
        · rw [odd]
          rfl
      simp only [bitsOf, List.nil_append, List.cons_append, List.foldl_cons, List.foldl_nil, bit]
      omega
    rw [bits, List.flatMap_cons, List.foldl_append, byte, ← bits, ih]
    rfl

/-- A word of a message, read from its bytes. -/
theorem word_bits (bs : Bytes) (j : Nat) : word (bits bs) j = fromBeBytes ((bs.drop (4 * j)).take 4) := by
  have bytes : (bits (bs.drop (4 * j))).take 32 = bits ((bs.drop (4 * j)).take 4) := bits_take _ 4
  rw [word, show 32 * j = 8 * (4 * j) from by omega, bits_drop, bytes, valueOf, value_from]
  rfl

/-! ## Padding -/

theorem pushZeros_eq (msg : Bytes) : pushZeros msg = msg ++ List.replicate ((120 - msg.length % 64) % 64) 0 := by
  fun_induction pushZeros msg with
  | case1 msg other ih =>
    have one : (120 - msg.length % 64) % 64 = (120 - (msg ++ [(0 : UInt8)]).length % 64) % 64 + 1 := by
      rw [List.length_append, List.length_singleton]
      omega
    rw [ih, one, List.replicate_succ, List.append_assoc]
    rfl
  | case2 msg done =>
    rw [show (120 - msg.length % 64) % 64 = 0 from by omega]
    simp

/-- The least number of zeros for whole bytes leaves the one alone in its byte. -/
theorem zeroBits_bytes (n : Nat) : zeroBits (8 * n) = 7 + 8 * ((120 - (n + 1) % 64) % 64) := by
  have found : (List.range 512).find? (fun k => (8 * n + 1 + k) % 512 = 448) = some (7 + 8 * ((120 - (n + 1) % 64) % 64)) := by
    refine List.find?_range_eq_some.mpr ⟨decide_eq_true ?_, List.mem_range.mpr ?_, fun j less => ?_⟩
    · omega
    · omega
    · rw [Bool.not_eq_true', decide_eq_false_iff_not]
      omega
  rw [zeroBits, found]
  rfl

/-- The bytes that are added are the bits that are added. -/
theorem bits_padded {data : Bytes} (fits : 8 * data.length < bitLimit) : bits (padded data) = pad (bits data) := by
  have length : (UInt64.ofNat data.length * 8).toNat = 8 * data.length := by
    have limit : bitLimit = 18446744073709551616 := rfl
    rw [UInt64.toNat_mul, UInt64.toNat_ofNat', show UInt64.toNat 8 = 8 from rfl]
    omega
  have marker : bits [0x80] = [true] ++ List.replicate 7 false := by decide
  rw [padded, pushZeros_eq, length, pad, bits_append, bits_append, bits_append, bits_bytesOf, bits_replicate, marker, bits_length,
    zeroBits_bytes, ← List.replicate_append_replicate, List.length_append, List.length_singleton]
  simp only [List.append_assoc]

theorem padded_length (data : Bytes) : (padded data).length % 64 = 0 := by
  have eight : ∀ x, (bytesOf 8 x).length = 8 := fun x => rfl
  rw [padded, pushZeros_eq, List.length_append, List.length_append, List.length_append, List.length_replicate,
    List.length_singleton, eight]
  omega

/-! ## Blocks -/

theorem chunks_eq {xs : List α} (some_ : 0 < n) (whole : xs.length = n * l) :
    chunks n xs = (List.range l).map fun i => (xs.drop (n * i)).take n := by
  induction l generalizing xs with
  | zero =>
    rw [chunks, if_pos (.inr (List.length_eq_zero_iff.mp whole))]
    rfl
  | succ l ih =>
    have filled : xs ≠ [] := fun empty => by
      rw [empty, List.length_nil, Nat.mul_add] at whole
      omega
    have rest : (xs.drop n).length = n * l := by
      rw [List.length_drop, whole, Nat.mul_add]
      omega
    rw [chunks, if_neg (by simp [filled]; omega), ih rest, List.range_succ_eq_map, List.map_cons, List.map_map]
    congr 1
    refine List.map_congr_left fun i _ => ?_
    rw [Function.comp, List.drop_drop, Nat.mul_succ, Nat.add_comm]

theorem getD_set_self {w : List Word} (x : Word) (room : i < w.length) : (w.set i x).getD i 0 = x := by
  rw [List.getD_eq_getElem?_getD, List.getElem?_set_self room]
  rfl

theorem getD_set_other {w : List Word} (x : Word) (other : i ≠ t) : (w.set i x).getD t 0 = w.getD t 0 := by
  rw [List.getD_eq_getElem?_getD, List.getElem?_set_ne other, ← List.getD_eq_getElem?_getD]

/-- Elements that are set one after the other, from `i` on. -/
theorem setAll (f : Bytes → Word) (xs : List Bytes) (i : Nat) (w : List Word) (room : i + xs.length ≤ w.length) :
    ((xs.zipIdx i).foldl (fun w x => w.set x.2 (f x.1)) w).length = w.length ∧
      ∀ t, ((xs.zipIdx i).foldl (fun w x => w.set x.2 (f x.1)) w).getD t 0 =
        if i ≤ t ∧ t < i + xs.length then f (xs.getD (t - i) []) else w.getD t 0 := by
  induction xs generalizing i w with
  | nil => exact ⟨rfl, fun t => by rw [if_neg (by simp)]; rfl⟩
  | cons x xs ih =>
    rw [List.length_cons] at room
    obtain ⟨length, elements⟩ := ih (i + 1) (w.set i (f x)) (by rw [List.length_set]; omega)
    rw [List.zipIdx_cons, List.foldl_cons]
    refine ⟨by rw [length, List.length_set], fun t => ?_⟩
    rw [elements]
    rw [List.length_cons]
    rcases Nat.lt_trichotomy t i with before | rfl | after
    · rw [if_neg (by omega), if_neg (by omega), getD_set_other _ (Nat.ne_of_gt before)]
    · rw [if_neg (by omega), if_pos (by omega), getD_set_self _ (by omega), Nat.sub_self]
      rfl
    · have next : t - i = t - (i + 1) + 1 := by omega
      rw [getD_set_other _ (Nat.ne_of_lt after), next]
      simp only [List.getD_cons_succ, show (i + 1 ≤ t ∧ t < i + 1 + xs.length) = (i ≤ t ∧ t < i + (xs.length + 1)) from by
        apply propext; omega]

theorem blockWords_spec {chunk : Bytes} (whole : chunk.length = 64) : (blockWords chunk).length = 64 ∧
    ∀ t < 16, (blockWords chunk).getD t 0 = fromBeBytes ((chunk.drop (4 * t)).take 4) := by
  have words := chunks_eq (n := 4) (l := 16) (by decide) whole
  have length : (chunks 4 chunk).length = 16 := by rw [words, List.length_map, List.length_range]
  obtain ⟨same, elements⟩ := setAll fromBeBytes (chunks 4 chunk) 0 (List.replicate 64 0) (by rw [length]; decide)
  refine ⟨same, fun t low => ?_⟩
  rw [blockWords, elements, if_pos ⟨Nat.zero_le t, by rw [length, Nat.zero_add]; exact low⟩, words, Nat.sub_zero,
    List.getD_eq_getElem?_getD, List.getElem?_map, List.getElem?_range low]
  rfl

/-! ## The schedule -/

theorem rotateRight_eq (x : Word) {n : Nat} (small : n < 32) : x.rotateRight n = rotr n x := by
  rw [BitVec.rotateRight_eq_rotateRightAux_of_lt small]
  rfl

theorem schedule_first {m : Nat → Word} (first : t < 16) : Hash.Sha256.schedule m t = m t := by
  rw [Hash.Sha256.schedule, if_pos first]

theorem extend_length (w : List Word) (i : Nat) : (extend w i).length = w.length := List.length_set

/-- The computed words are those of the schedule, as far as the loop has come. -/
theorem extended {m : Nat → Word} {w : List Word} (length : w.length = 64) (first : ∀ t < 16, w.getD t 0 = m t) (n : Nat)
    (room : n ≤ 48) :
    ((List.range' 16 n).foldl extend w).length = 64 ∧
      ∀ t < 16 + n, ((List.range' 16 n).foldl extend w).getD t 0 = Hash.Sha256.schedule m t := by
  induction n with
  | zero => exact ⟨length, fun t low => (first t low).trans (schedule_first low).symm⟩
  | succ n ih =>
    obtain ⟨kept, words⟩ := ih (by omega)
    rw [List.range'_concat, List.foldl_append, List.foldl_cons, List.foldl_nil]
    generalize (List.range' 16 n).foldl extend w = w' at kept words
    refine ⟨(extend_length _ _).trans kept, fun t low => ?_⟩
    rw [Nat.one_mul]
    rcases Nat.lt_or_eq_of_le (Nat.le_of_lt_succ (show t < 16 + n + 1 from low)) with before | rfl
    · rw [← words t before, extend, getD_set_other _ (Nat.ne_of_gt before)]
    · rw [Hash.Sha256.schedule, if_neg (by omega), ← words _ (by omega), ← words _ (by omega), ← words _ (by omega),
        ← words _ (by omega),
        extend, getD_set_self _ (by omega)]
      simp only [rotateRight_eq _ (show 7 < 32 by decide), rotateRight_eq _ (show 18 < 32 by decide),
        rotateRight_eq _ (show 17 < 32 by decide), rotateRight_eq _ (show 19 < 32 by decide)]
      show _ + smallSigma0 _ + _ + smallSigma1 _ = _
      ac_rfl

/-! ## The rounds -/

/-- The words of a hash value, in order. -/
def array (s : Variables) : List Word := [s.a, s.b, s.c, s.d, s.e, s.f, s.g, s.h]

/-- The table of constants is that of the cube roots. -/
theorem k_constant (t : Nat) : k.getD t 0 = Hash.Sha256.constant t := by
  have table : k = Hash.Sha256.primes.map (Hash.Sha256.fraction 3) := by decide +kernel
  rw [Hash.Sha256.constant, ← table]

theorem h0_initial : h0 = array Hash.Sha256.initial := by decide +kernel

theorem mix_round (w : List Word) (s : Variables) (i : Nat) :
    mix w (array s) i = array (Hash.Sha256.round (Hash.Sha256.constant i) (w.getD i 0) s) := by
  rw [← k_constant, mix]
  simp only [rotateRight_eq _ (show 2 < 32 by decide), rotateRight_eq _ (show 13 < 32 by decide),
    rotateRight_eq _ (show 22 < 32 by decide),
    rotateRight_eq _ (show 6 < 32 by decide), rotateRight_eq _ (show 11 < 32 by decide), rotateRight_eq _ (show 25 < 32 by decide)]
  rfl

theorem mixed {w : List Word} {m : Nat → Word} (n : Nat) (words : ∀ t < n, w.getD t 0 = Hash.Sha256.schedule m t) (h : Variables) :
    (List.range n).foldl (mix w) (array h) =
      array ((List.range n).foldl (fun s t => Hash.Sha256.round (Hash.Sha256.constant t) (Hash.Sha256.schedule m t) s) h) := by
  induction n with
  | zero => rfl
  | succ n ih =>
    rw [List.range_succ, List.foldl_append, List.foldl_append, ih fun t less => words t (Nat.lt_succ_of_lt less)]
    simp only [List.foldl_cons, List.foldl_nil]
    rw [mix_round, words n (Nat.lt_succ_self n)]

theorem summed (h s : Variables) :
    (List.range 8).foldl (fun h i => h.set i (h.getD i 0 + (array s).getD i 0)) (array h) = array (Hash.Sha256.add h s) := by
  have each : array (Hash.Sha256.add h s) =
      [h.a + s.a, h.b + s.b, h.c + s.c, h.d + s.d, h.e + s.e, h.f + s.f, h.g + s.g, h.h + s.h] := by
    simp only [array, Hash.Sha256.add, BitVec.add_comm]
  rw [each]
  rfl

/-- A block is added to the hash value as the standard adds it. -/
theorem block_compress {chunk : Bytes} {m : Nat → Word} (whole : chunk.length = 64)
    (words : ∀ t < 16, fromBeBytes ((chunk.drop (4 * t)).take 4) = m t) (h : Variables) :
    block (array h) chunk = array (Hash.Sha256.compress h m) := by
  obtain ⟨length, first⟩ := blockWords_spec whole
  have computed := (extended length (fun t low => (first t low).trans (words t low)) 48 (by decide)).2
  rw [block, mixed 64 computed, summed]
  rfl

/-- The blocks of a message, one after the other. -/
theorem blocks_compress {msg : Bytes} (h : Variables) (is : List Nat) (inside : ∀ i ∈ is, 64 * i + 64 ≤ msg.length) :
    (is.map fun i => (msg.drop (64 * i)).take 64).foldl block (array h) =
      array (is.foldl (fun h i => Hash.Sha256.compress h fun t => word (bits msg) (16 * i + t)) h) := by
  induction is generalizing h with
  | nil => rfl
  | cons i is ih =>
    have room := inside i List.mem_cons_self
    have whole : ((msg.drop (64 * i)).take 64).length = 64 := by
      rw [List.length_take, List.length_drop]
      omega
    have words : ∀ t < 16, fromBeBytes ((((msg.drop (64 * i)).take 64).drop (4 * t)).take 4) = word (bits msg) (16 * i + t) := by
      intro t low
      rw [word_bits, List.drop_take, List.drop_drop, List.take_take, Nat.min_eq_left (by omega),
        show 4 * (16 * i + t) = 64 * i + 4 * t from by omega]
    rw [List.map_cons, List.foldl_cons, List.foldl_cons, block_compress whole words,
      ih _ fun j mem => inside j (List.mem_cons_of_mem _ mem)]

/-! ## The digests -/

/-- What is computed, block by block. -/
theorem sha256_blocks (data : Bytes) : sha256 data = ((List.range ((padded data).length / 64)).foldl
    (fun h i => Hash.Sha256.compress h fun t => word (bits (padded data)) (16 * i + t)) Hash.Sha256.initial).bytes := by
  have length : (padded data).length = 64 * ((padded data).length / 64) :=
    (Nat.mul_div_cancel' (Nat.dvd_of_mod_eq_zero (padded_length data))).symm
  have inside : ∀ i ∈ List.range ((padded data).length / 64), 64 * i + 64 ≤ (padded data).length := fun i mem => by
    have := List.mem_range.mp mem
    omega
  rw [sha256, chunks_eq (by decide) length, h0_initial, blocks_compress _ _ inside]
  rfl

/-- **SHA-256** of the engine is that of the standard, for every message that has one. -/
theorem sha256_eq (data : Bytes) : Hash.Sha256.hash data = if 8 * data.length < bitLimit then some (sha256 data) else none := by
  rw [Hash.Sha256.hash, Hash.Sha256.digest, bits_length]
  split
  · next fits =>
    have blocks : (pad (bits data)).length / 512 = (padded data).length / 64 := by
      rw [← bits_padded fits, bits_length]
      omega
    rw [blocks, ← bits_padded fits, sha256_blocks]
    rfl
  · rfl

theorem sha256_length (data : Bytes) : (sha256 data).length = 32 := by
  rw [sha256_blocks]
  rfl

theorem resize_eq {key : Bytes} (short : key.length ≤ n) : resize n key = key ++ List.replicate (n - key.length) 0 := by
  rw [resize, List.take_of_length_le short]

theorem xorBytes_replicate (x : UInt8) (key : Bytes) : Hash.xorBytes key (List.replicate key.length x) = key.map (· ^^^ x) := by
  induction key with
  | nil => rfl
  | cons b key ih =>
    rw [List.length_cons, List.replicate_succ, Hash.xorBytes, List.zipWith_cons_cons, List.map_cons, ← ih]
    rfl

/-- Two hashes over a key that fills a block. -/
theorem hmac_block {key data : Bytes} (short : key.length ≤ 64) :
    Hash.hmac Hash.Sha256.hash 64 key data = if 8 * (64 + data.length) < bitLimit then
      some (sha256 ((resize 64 key).map (· ^^^ 0x5c) ++ sha256 ((resize 64 key).map (· ^^^ 0x36) ++ data))) else none := by
  have limit : bitLimit = 18446744073709551616 := rfl
  have length : (resize 64 key).length = 64 := by
    rw [resize_eq short, List.length_append, List.length_replicate]
    omega
  have masked (x : UInt8) : Hash.xorBytes (resize 64 key) (List.replicate 64 x) = (resize 64 key).map (· ^^^ x) := by
    have same := xorBytes_replicate x (resize 64 key)
    rwa [length] at same
  have inner : ((resize 64 key).map (· ^^^ 0x36) ++ data).length = 64 + data.length := by
    rw [List.length_append, List.length_map, length]
  have outer (x : Bytes) : ((resize 64 key).map (· ^^^ 0x5c) ++ sha256 x).length = 96 := by
    rw [List.length_append, List.length_map, length, sha256_length]
  rw [Hash.hmac, if_pos short]
  show (Hash.Sha256.hash (Hash.xorBytes (key ++ List.replicate (64 - key.length) 0) (List.replicate 64 Hash.ipad) ++ data)).bind
    (fun ih => Hash.Sha256.hash (Hash.xorBytes (key ++ List.replicate (64 - key.length) 0) (List.replicate 64 Hash.opad) ++ ih)) = _
  rw [← resize_eq short, masked, masked, Hash.ipad, Hash.opad, sha256_eq, inner]
  split
  · rw [Option.bind_some, sha256_eq, outer, if_pos (by omega)]
  · rfl

/-- A longer key is hashed first. -/
theorem hmac_long {key data : Bytes} (long : 64 < key.length) :
    Hash.hmac Hash.Sha256.hash 64 key data =
      if 8 * key.length < bitLimit then Hash.hmac Hash.Sha256.hash 64 (sha256 key) data else none := by
  rw [Hash.hmac, if_neg (Nat.not_le.mpr long), sha256_eq]
  split
  · rw [Hash.hmac, if_pos (by rw [sha256_length]; decide)]
  · rfl

/-- **The digests** are those of the standards: SHA-256 of every message and HMAC of every key and message that have one. -/
theorem digests_standard (key data : Bytes) :
    Hash.Sha256.hash data = (if 8 * data.length < bitLimit then some (sha256 data) else none) ∧
      Hash.hmac Hash.Sha256.hash 64 key data =
        if 8 * key.length < bitLimit ∧ 8 * (64 + data.length) < bitLimit then some (hmacSha256 key data) else none := by
  refine ⟨sha256_eq data, ?_⟩
  have limit : bitLimit = 18446744073709551616 := rfl
  rcases Nat.lt_or_ge 64 key.length with long | short
  · rw [hmac_long long, hmac_block (by rw [sha256_length]; decide), hmacSha256, if_pos long]
    by_cases fits : 8 * key.length < bitLimit
    · simp only [fits, true_and, if_true]
    · simp only [fits, false_and, if_false]
  · have fits : 8 * key.length < bitLimit := by omega
    rw [hmac_block short, hmacSha256, if_neg (Nat.not_lt.mpr short)]
    simp only [fits, true_and]

end

end Harpoon.Git.Sha256
