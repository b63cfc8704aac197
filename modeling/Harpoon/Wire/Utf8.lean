import Harpoon.Wire.Number

/-!
# Decoding UTF-8 as it arrives

Bytes are decoded as they come. The start of a character waits for the rest of it; bytes that are no character, and a
start that is not continued, are decoded as the replacement character. A text's bytes decode to the text.
-/

namespace Harpoon.Wire

def replacement : Char := '\ufffd'

/-- A byte where a character begins: what it decodes to, and what waits. -/
def leadByte (b : UInt8) : List Char × Bytes :=
  if b.toNat < 0x80 then ([Char.ofNat b.toNat], [])
  else if 0xc2 ≤ b.toNat ∧ b.toNat ≤ 0xf4 then ([], [b])
  else ([replacement], [])

/-- The bytes that follow a first byte. -/
def owed (a : UInt8) : Nat :=
  if a.toNat ≤ 0xdf then 1 else if a.toNat ≤ 0xef then 2 else 3

/-- May the byte follow this start of a character? The second byte keeps the character out of the surrogates, below the
greatest character and in no more bytes than it takes. -/
def continuesChar (carry : Bytes) (b : UInt8) : Bool :=
  match carry with
  | [a] =>
    let low := if a.toNat = 0xe0 then 0xa0 else if a.toNat = 0xf0 then 0x90 else 0x80
    let high := if a.toNat = 0xed then 0x9f else if a.toNat = 0xf4 then 0x8f else 0xbf
    low ≤ b.toNat && b.toNat ≤ high
  | _ => 0x80 ≤ b.toNat && b.toNat ≤ 0xbf

/-- The character that the bytes spell. -/
def charOf (bs : Bytes) : Char :=
  match bs.map (·.toNat) with
  | [a, b] => Char.ofNat (a % 32 * 64 + b % 64)
  | [a, b, c] => Char.ofNat (a % 16 * 4096 + b % 64 * 64 + c % 64)
  | [a, b, c, d] => Char.ofNat (a % 8 * 262144 + b % 64 * 4096 + c % 64 * 64 + d % 64)
  | _ => replacement

/-- One more byte, behind the start of a character that waits. -/
def decodeByte (carry : Bytes) (b : UInt8) : List Char × Bytes :=
  match carry with
  | [] => leadByte b
  | a :: _ =>
    if continuesChar carry b then
      if carry.length = owed a then ([charOf (carry ++ [b])], []) else ([], carry ++ [b])
    else (replacement :: (leadByte b).1, (leadByte b).2)

/-- The characters of the bytes, and the start of a character that waits at their end. -/
def decodeFrom (carry : Bytes) : Bytes → List Char × Bytes
  | [] => ([], carry)
  | b :: bs =>
    let now := decodeByte carry b
    let later := decodeFrom now.2 bs
    (now.1 ++ later.1, later.2)

/-- A start that never goes on is decoded as one replacement character. -/
def lossyEnd (carry : Bytes) : List Char := if carry = [] then [] else [replacement]

/-- The characters of all the bytes. -/
def lossy (bs : Bytes) : List Char := (decodeFrom [] bs).1 ++ lossyEnd (decodeFrom [] bs).2

section

variable {carry xs ys : Bytes} {a b : UInt8} {c : Char} {n : Nat}

theorem decodeFrom_append : decodeFrom carry (xs ++ ys) =
    ((decodeFrom carry xs).1 ++ (decodeFrom (decodeFrom carry xs).2 ys).1,
      (decodeFrom (decodeFrom carry xs).2 ys).2) := by
  induction xs generalizing carry with
  | nil => rfl
  | cons x xs ih => rw [List.cons_append, decodeFrom, ih, decodeFrom, List.append_assoc]

/-- Bytes behind which nothing waits are decoded for themselves. -/
theorem lossy_append (settled : (decodeFrom [] xs).2 = []) : lossy (xs ++ ys) = lossy xs ++ lossy ys := by
  have none : lossyEnd [] = [] := rfl
  rw [lossy, lossy, lossy, decodeFrom_append, settled, none, List.append_nil, List.append_assoc]

theorem decodeFrom_settled (settled : (decodeFrom [] xs).2 = []) :
    (decodeFrom [] (xs ++ ys)).2 = (decodeFrom [] ys).2 := by
  rw [decodeFrom_append, settled]

theorem lossy_of_settled (settled : (decodeFrom [] xs).2 = []) : lossy xs = (decodeFrom [] xs).1 := by
  have none : lossyEnd [] = [] := rfl
  rw [lossy, settled, none, List.append_nil]

theorem byte_of_lt (fits : n < 256) : (UInt8.ofNat n).toNat = n := by rw [UInt8.toNat_ofNat', Nat.mod_eq_of_lt fits]

theorem leadByte_waits (least : 0xc2 ≤ a.toNat) (most : a.toNat ≤ 0xf4) : leadByte a = ([], [a]) := by
  rw [leadByte, if_neg (by omega), if_pos ⟨least, most⟩]

/-- A byte in the general range continues a character, unless the first byte narrows it. -/
theorem continuesChar_tail (least : 0x80 ≤ b.toNat) (most : b.toNat ≤ 0xbf)
    (second : carry = [a] → (a.toNat = 0xe0 → 0xa0 ≤ b.toNat) ∧ (a.toNat = 0xf0 → 0x90 ≤ b.toNat) ∧
      (a.toNat = 0xed → b.toNat ≤ 0x9f) ∧ (a.toNat = 0xf4 → b.toNat ≤ 0x8f))
    (led : carry.head? = some a) : continuesChar carry b = true := by
  match carry, led with
  | [_], rfl =>
    obtain ⟨e0, f0, ed, f4⟩ := second rfl
    simp only [continuesChar, Bool.and_eq_true, decide_eq_true_eq]
    constructor
    · split
      next is => exact e0 is
      · split
        next is => exact f0 is
        · exact least
    · split
      next is => exact ed is
      · split
        next is => exact f4 is
        · exact most
  | _ :: _ :: _, _ => simp [continuesChar, least, most]

theorem decodeFrom_more (goes : continuesChar (a :: carry) b = true) (owes : (a :: carry).length ≠ owed a) :
    decodeFrom (a :: carry) (b :: ys) = decodeFrom (a :: carry ++ [b]) ys := by
  rw [decodeFrom, decodeByte, if_pos goes, if_neg owes]
  rfl

theorem decodeFrom_last (goes : continuesChar (a :: carry) b = true) (owes : (a :: carry).length = owed a) :
    decodeFrom (a :: carry) (b :: ys) =
      (charOf (a :: carry ++ [b]) :: (decodeFrom [] ys).1, (decodeFrom [] ys).2) := by
  rw [decodeFrom, decodeByte, if_pos goes, if_pos owes]
  rfl

theorem decodeFrom_lead (least : 0xc2 ≤ a.toNat) (most : a.toNat ≤ 0xf4) :
    decodeFrom [] (a :: ys) = decodeFrom [a] ys := by
  have now : decodeByte [] a = ([], [a]) := leadByte_waits least most
  rw [decodeFrom, now, List.nil_append]

theorem decode_char : decodeFrom [] (String.utf8EncodeChar c) = ([c], []) := by
  have same : Char.ofNat c.val.toNat = c := Char.ofNat_toNat c
  have valid : c.val.toNat < 0xd800 ∨ 0xdfff < c.val.toNat ∧ c.val.toNat < 0x110000 := c.valid
  rw [String.utf8EncodeChar]
  generalize c.val.toNat = v at same valid
  split
  next ascii =>
    rw [decodeFrom, decodeByte, leadByte, byte_of_lt (by omega), if_pos (by omega), same]
    rfl
  · split
    next two =>
      have first : (UInt8.ofNat (v / 64 % 32 + 0xc0)).toNat = v / 64 % 32 + 0xc0 := byte_of_lt (by omega)
      have last : (UInt8.ofNat (v % 64 + 0x80)).toNat = v % 64 + 0x80 := byte_of_lt (by omega)
      generalize UInt8.ofNat (v / 64 % 32 + 0xc0) = a at first ⊢
      generalize UInt8.ofNat (v % 64 + 0x80) = b at last ⊢
      have char : charOf [a, b] = c := by
        rw [← same, charOf]
        dsimp only [List.map]
        rw [first, last]
        congr 1
        omega
      have owes : owed a = 1 := by rw [owed, if_pos (by omega)]
      have goes : continuesChar [a] b = true :=
        continuesChar_tail (by omega) (by omega) (fun _ => by omega) rfl
      rw [decodeFrom_lead (by omega) (by omega), decodeFrom_last goes owes.symm]
      exact congrArg (fun x => ([x], [])) char
    · split
      next three =>
        have first : (UInt8.ofNat (v / 4096 % 16 + 0xe0)).toNat = v / 4096 % 16 + 0xe0 := byte_of_lt (by omega)
        have second : (UInt8.ofNat (v / 64 % 64 + 0x80)).toNat = v / 64 % 64 + 0x80 := byte_of_lt (by omega)
        have last : (UInt8.ofNat (v % 64 + 0x80)).toNat = v % 64 + 0x80 := byte_of_lt (by omega)
        generalize UInt8.ofNat (v / 4096 % 16 + 0xe0) = a at first ⊢
        generalize UInt8.ofNat (v / 64 % 64 + 0x80) = b at second ⊢
        generalize UInt8.ofNat (v % 64 + 0x80) = d at last ⊢
        have char : charOf [a, b, d] = c := by
          rw [← same, charOf]
          dsimp only [List.map]
          rw [first, second, last]
          congr 1
          omega
        have owes : owed a = 2 := by rw [owed, if_neg (by omega), if_pos (by omega)]
        have goes : continuesChar [a] b = true := by
          refine continuesChar_tail (by omega) (by omega) (fun _ => ⟨?_, ?_, ?_, ?_⟩) rfl <;> omega
        have ends : continuesChar [a, b] d = true :=
          continuesChar_tail (by omega) (by omega) (fun one => by cases one) rfl
        rw [decodeFrom_lead (by omega) (by omega), decodeFrom_more goes (by simp [owes])]
        rw [List.singleton_append, decodeFrom_last ends owes.symm]
        exact congrArg (fun x => ([x], [])) char
      next four =>
        have first : (UInt8.ofNat (v / 262144 % 8 + 0xf0)).toNat = v / 262144 % 8 + 0xf0 := byte_of_lt (by omega)
        have second : (UInt8.ofNat (v / 4096 % 64 + 0x80)).toNat = v / 4096 % 64 + 0x80 := byte_of_lt (by omega)
        have third : (UInt8.ofNat (v / 64 % 64 + 0x80)).toNat = v / 64 % 64 + 0x80 := byte_of_lt (by omega)
        have last : (UInt8.ofNat (v % 64 + 0x80)).toNat = v % 64 + 0x80 := byte_of_lt (by omega)
        generalize UInt8.ofNat (v / 262144 % 8 + 0xf0) = a at first ⊢
        generalize UInt8.ofNat (v / 4096 % 64 + 0x80) = b at second ⊢
        generalize UInt8.ofNat (v / 64 % 64 + 0x80) = d at third ⊢
        generalize UInt8.ofNat (v % 64 + 0x80) = e at last ⊢
        have char : charOf [a, b, d, e] = c := by
          rw [← same, charOf]
          dsimp only [List.map]
          rw [first, second, third, last]
          congr 1
          omega
        have owes : owed a = 3 := by rw [owed, if_neg (by omega), if_neg (by omega)]
        have goes : continuesChar [a] b = true := by
          refine continuesChar_tail (by omega) (by omega) (fun _ => ⟨?_, ?_, ?_, ?_⟩) rfl <;> omega
        have onward : continuesChar [a, b] d = true :=
          continuesChar_tail (by omega) (by omega) (fun one => by cases one) rfl
        have ends : continuesChar [a, b, d] e = true :=
          continuesChar_tail (by omega) (by omega) (fun one => by cases one) rfl
        rw [decodeFrom_lead (by omega) (by omega), decodeFrom_more goes (by simp [owes])]
        rw [List.singleton_append, decodeFrom_more onward (by simp [owes])]
        rw [List.cons_append, List.singleton_append, decodeFrom_last ends owes.symm]
        exact congrArg (fun x => ([x], [])) char

/-- The bytes of a text decode to the text. -/
theorem decodeFrom_utf8 (s : String) : decodeFrom [] (utf8 s) = (s.toList, []) := by
  rw [utf8_eq]
  induction s.toList with
  | nil => rfl
  | cons c cs ih => rw [List.flatMap_cons, decodeFrom_append, decode_char, ih, List.singleton_append]

end

/-! ## Texts and their parts -/

section

variable {s t : String} {c : Char} {cs : List Char} {b : UInt8} {a x : Bytes}

theorem utf8_append (s t : String) : utf8 (s ++ t) = utf8 s ++ utf8 t := by
  rw [utf8_eq, utf8_eq, utf8_eq, String.toList_append, List.flatMap_append]

theorem fromUtf8_iff : fromUtf8 x = some s ↔ x = utf8 s :=
  ⟨utf8_of_fromUtf8, fun same => same ▸ fromUtf8_utf8 s⟩

/-- Behind a text the bytes are read for themselves. -/
theorem fromUtf8_append (t : String) (x : Bytes) : fromUtf8 (utf8 t ++ x) = (fromUtf8 x).map (t ++ ·) := by
  cases behind : fromUtf8 x with
  | some y =>
    obtain rfl := fromUtf8_iff.mp behind
    rw [← utf8_append, fromUtf8_utf8]
    rfl
  | none =>
    cases whole : fromUtf8 (utf8 t ++ x) with
    | none => rfl
    | some s =>
      have bytes : utf8 t ++ x = utf8 s := fromUtf8_iff.mp whole
      have decoded := decodeFrom_utf8 s
      rw [← bytes, decodeFrom_append, decodeFrom_utf8] at decoded
      have chars : t.toList ++ (decodeFrom [] x).1 = s.toList := congrArg Prod.fst decoded
      have split : s = t ++ String.ofList (decodeFrom [] x).1 := by
        rw [← String.toList_inj, String.toList_append, String.toList_ofList, chars]
      rw [split, utf8_append] at bytes
      rw [fromUtf8_iff.mpr (List.append_cancel_left bytes)] at behind
      cases behind

/-- A byte below 128 is a character of its own. -/
theorem encode_ascii (low : b ∈ String.utf8EncodeChar c) (ascii : b.toNat < 128) : String.utf8EncodeChar c = [b] := by
  have code := mem_utf8EncodeChar low ascii
  have small : c.val.toNat ≤ 127 := by
    have same : c.val.toNat = b.toNat := code
    omega
  rw [String.utf8EncodeChar, if_pos small]
  refine congrArg (fun d => [d]) (UInt8.toNat_inj.mp ?_)
  rw [UInt8.toNat_ofNat', Nat.mod_eq_of_lt (by omega)]
  exact code

/-- A byte below 128 in a text is a character between two texts. -/
theorem chars_split (ascii : b.toNat < 128) (whole : cs.flatMap String.utf8EncodeChar = a ++ b :: x) :
    ∃ ds c es, cs = ds ++ c :: es ∧ ds.flatMap String.utf8EncodeChar = a ∧ String.utf8EncodeChar c = [b] ∧
      es.flatMap String.utf8EncodeChar = x := by
  induction cs generalizing a with
  | nil => cases a <;> cases whole
  | cons c cs ih =>
    rw [List.flatMap_cons] at whole
    rcases List.append_eq_append_iff.mp whole with ⟨rest, split, behind⟩ | ⟨rest, split, behind⟩
    · obtain ⟨ds, d, es, rfl, front, back⟩ := ih behind
      exact ⟨c :: ds, d, es, rfl, by rw [List.flatMap_cons, front, split], back⟩
    · cases rest with
      | nil =>
        rw [List.append_nil] at split
        obtain ⟨ds, d, es, rfl, front, back⟩ := ih (a := []) behind.symm
        exact ⟨c :: ds, d, es, rfl, by rw [List.flatMap_cons, front, split, List.append_nil], back⟩
      | cons d rest =>
        obtain ⟨rfl, rfl⟩ := List.cons.inj behind
        have alone := encode_ascii (split ▸ List.mem_append_right _ List.mem_cons_self) ascii
        rw [alone] at split
        cases a with
        | nil =>
          cases split
          exact ⟨[], c, cs, rfl, rfl, alone, rfl⟩
        | cons _ a => cases a <;> cases split

/-- Bytes that are no text are none with more behind them, if they end below 128. -/
theorem fromUtf8_none (ascii : b.toNat < 128) (none_ : fromUtf8 (a ++ [b]) = none) (x : Bytes) : fromUtf8 (a ++ [b] ++ x) = none := by
  cases whole : fromUtf8 (a ++ [b] ++ x) with
  | none => rfl
  | some s =>
    have bytes := fromUtf8_iff.mp whole
    rw [utf8_eq, List.append_assoc, List.singleton_append] at bytes
    obtain ⟨ds, c, es, split, front, alone, -⟩ := chars_split ascii bytes.symm
    have text : fromUtf8 (a ++ [b]) = some (String.ofList (ds ++ [c])) := by
      rw [fromUtf8_iff, utf8_eq, String.toList_ofList, List.flatMap_append, front, List.flatMap_singleton, alone]
    rw [text] at none_
    cases none_

/-- Bytes below 128 are a text. -/
theorem fromUtf8_ascii (ascii : ∀ b ∈ x, b.toNat < 128) : ∃ s, fromUtf8 x = some s := by
  induction x with
  | nil => exact ⟨"", fromUtf8_utf8 ""⟩
  | cons b x ih =>
    obtain ⟨s, rest⟩ := ih fun d mem => ascii d (List.mem_cons_of_mem _ mem)
    have low := ascii b List.mem_cons_self
    have lead : utf8 (String.singleton (Char.ofNat b.toNat)) = [b] := by
      have codes : ∀ n < 128, (Char.ofNat n).toNat = n := by decide
      have code := codes b.toNat low
      have inside := (ascii_utf8 (s := String.singleton (Char.ofNat b.toNat)) code low).mpr (by simp)
      rw [utf8_eq, String.toList_singleton, List.flatMap_singleton] at inside ⊢
      exact encode_ascii inside low
    rw [← List.singleton_append, ← lead, fromUtf8_append, rest]
    exact ⟨_, rfl⟩

/-- A byte from 128 on does not end a text behind bytes below. -/
theorem fromUtf8_cut (ascii : ∀ b ∈ a, b.toNat < 128) (high : 128 ≤ b.toNat) : fromUtf8 (a ++ [b]) = none := by
  obtain ⟨t, front⟩ := fromUtf8_ascii ascii
  obtain rfl := fromUtf8_iff.mp front
  rw [fromUtf8_append]
  cases alone : fromUtf8 [b] with
  | none => rfl
  | some s =>
    have decoded := decodeFrom_utf8 s
    rw [← fromUtf8_iff.mp alone, decodeFrom, decodeByte, leadByte, if_neg (by omega)] at decoded
    split at decoded
    · cases congrArg Prod.snd decoded
    · have spelled : s.toList = [replacement] := (congrArg Prod.fst decoded).symm
      have bytes := fromUtf8_iff.mp alone
      rw [utf8_eq, spelled] at bytes
      cases congrArg List.length bytes

end

end Harpoon.Wire
