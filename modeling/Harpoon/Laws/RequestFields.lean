import Harpoon.Host.UnixBridge
import Harpoon.Laws.Paths
import Harpoon.Laws.RequestHeads
import Harpoon.Laws.Urls

/-!
# Requests, and what the bridge reads from their heads

A request as RFC 7230 has it: a head of lines, with the fields that say how the body is framed. What the bridge reads
from a well-formed head are its lines, and the length is the one that the fields give; that the body is in chunks it
reads from any line that speaks of chunks.
-/

namespace Harpoon.UnixBridge

open Host (lowercased)
open Desktop (IsHead headMark)
open Wire (Bytes fromUtf8 positionOf utf8)

/-! ## Requests -/

structure Request where
  head : Bytes
  body : Bytes
  /-- The body is in chunks. -/
  chunked : Bool

def Request.bytes (r : Request) : Bytes := r.head ++ r.body

def crlf : Bytes := [0x0D, 0x0A]

/-- A byte of a token. -/
def isToken (b : UInt8) : Bool :=
  0x30 ≤ b && b ≤ 0x39 || 0x41 ≤ b && b ≤ 0x5A || 0x61 ≤ b && b ≤ 0x7A || (utf8 "!#$%&*+-.^_|~").contains b || b = 0x27 ||
    b = 0x60

/-- A byte of the target, or of the version. -/
def isVisible (b : UInt8) : Bool := 0x20 < b && b ≠ 0x7F

def isOws (b : UInt8) : Bool := b = 0x20 || b = 0x09

structure Field where
  name : Bytes
  value : Bytes

def Field.text (f : Field) : Bytes := f.name ++ 0x3A :: f.value

def Field.lower (b : UInt8) : UInt8 := if 0x41 ≤ b && b ≤ 0x5A then b + 0x20 else b

/-- The field's name, in any case. -/
def Field.Named (f : Field) (name : String) : Prop := f.name.map lower = utf8 name

/-- The value without the blanks around it. -/
def Field.trimmed (f : Field) : Bytes := ((f.value.dropWhile isOws).reverse.dropWhile isOws).reverse

structure Field.Formed (f : Field) : Prop where
  name : f.name ≠ [] ∧ ∀ b ∈ f.name, isToken b = true
  value : ∀ b ∈ f.value, b ≠ 0x0D ∧ b ≠ 0x0A

/-- A line of a head, and the lines behind it up to the empty line. -/
def headFrom (line : Bytes) (fields : List Field) : Bytes := line ++ crlf ++ fields.flatMap (fun f => f.text ++ crlf) ++ crlf

/-- A line that gives the size of a chunk, perhaps with an extension. -/
def SizeLine (n : Nat) (line : Bytes) : Prop :=
  ∃ digits extension, line = utf8 (String.ofList digits) ++ extension ∧ digits ≠ [] ∧ Wire.readDigits 16 0 digits = some n ∧
    (extension = [] ∨ extension.head? = some 0x3B) ∧ ∀ b ∈ extension, b ≠ 0x0D ∧ b ≠ 0x0A

inductive ChunkedBody : Bytes → Prop where
  | last {line : Bytes} {trailers : List Field} : SizeLine 0 line → (∀ f ∈ trailers, f.Formed) →
      ChunkedBody (headFrom line trailers)
  | chunk {line data rest : Bytes} : data ≠ [] → SizeLine data.length line → ChunkedBody rest →
      ChunkedBody (line ++ crlf ++ data ++ crlf ++ rest)

/-- What the fields say of the body. -/
structure Framed (fields : List Field) (r : Request) : Prop where
  chunked : r.chunked = true → (∃ f ∈ fields, f.Named "transfer-encoding") ∧ (∀ f ∈ fields, ¬ f.Named "content-length") ∧
    ChunkedBody r.body
  coding : ∀ f ∈ fields, f.Named "transfer-encoding" → r.chunked = true ∧ f.trimmed.map Field.lower = utf8 "chunked"
  length : ∀ f ∈ fields, f.Named "content-length" →
    ∃ digits, f.trimmed = utf8 (String.ofList digits) ∧ digits ≠ [] ∧ Wire.readDigits 10 0 digits = some r.body.length
  empty : r.chunked = false → (∀ f ∈ fields, ¬ f.Named "content-length") → r.body = []

/-- A request of HTTP/1.1, in the sense of RFC 7230. -/
def WellFormed (r : Request) : Prop :=
  ∃ method target version fields, r.head = headFrom (method ++ 0x20 :: target ++ 0x20 :: version) fields ∧
    (method ≠ [] ∧ ∀ b ∈ method, isToken b = true) ∧ (∀ b ∈ target ++ version, isVisible b = true) ∧
    (∀ f ∈ fields, f.Formed) ∧ Framed fields r

/-- Some line of the head speaks of chunks. -/
def LooksChunked (r : Request) : Prop :=
  ∃ s, fromUtf8 r.head = some s ∧ ∃ l ∈ (Desktop.crlfLines s.toList).map String.ofList, isCoding l = true

/-- What looks like chunks ends at the first end of chunks, and nothing before looks like the other end. What does not
is not too long. -/
structure Clear (r : Request) : Prop where
  ends : LooksChunked r → ∃ i, positionOf term r.body = some i ∧ i + term.length = r.body.length
  other : LooksChunked r → positionOf term2 (r.head ++ r.body.dropLast) = none
  fits : ¬ LooksChunked r → r.head.length + r.body.length ≤ maxInt

/-- The bridge finds the end of the body by what it reads from the head. -/
structure Scanned (r : Request) (h : Head) : Prop where
  looks : h.isChunked = true ↔ LooksChunked r
  ends : h.isChunked = true → ∃ i, positionOf term r.body = some i ∧ i + term.length = r.body.length
  other : h.isChunked = true → positionOf term2 (r.head ++ r.body.dropLast) = none
  whole : h.isChunked = false → r.chunked = false
  length : h.isChunked = false → h.contentLength.getD 0 = r.body.length ∧ r.head.length + r.body.length ≤ maxInt

structure Good (r : Request) : Prop where
  isHead : IsHead r.head
  starts : ∀ s, fromUtf8 r.head = some s → Head.ofText s ≠ none
  scanned : ∀ s h, fromUtf8 r.head = some s → Head.ofText s = some h → Scanned r h

variable {r : Request} {h : Head} {s : String}

/-! ## The end of a head -/

theorem positionOf_line {line x : Bytes} (free : 0x0D ∉ line) (next : x.head? ≠ some 0x0D) :
    positionOf headMark (line ++ crlf ++ x) = (positionOf headMark x).map (· + (line ++ crlf).length) := by
  induction line with
  | nil =>
    have away : ¬ headMark.isPrefixOf (0x0D :: 0x0A :: x) = true := by
      intro begins
      obtain ⟨rest, same⟩ := List.isPrefixOf_iff_prefix.mp begins
      cases x with
      | nil => cases same
      | cons c x => cases same; exact next rfl
    have other : ¬ headMark.isPrefixOf (0x0A :: x) = true := by
      intro begins
      obtain ⟨rest, same⟩ := List.isPrefixOf_iff_prefix.mp begins
      cases same
    show positionOf headMark (0x0D :: 0x0A :: x) = _
    rw [positionOf, if_neg away, positionOf, if_neg other, Option.map_map]
    rfl
  | cons c line ih =>
    have away : ¬ headMark.isPrefixOf (c :: (line ++ crlf ++ x)) = true := by
      intro begins
      obtain ⟨rest, same⟩ := List.isPrefixOf_iff_prefix.mp begins
      exact free ((List.cons.inj same).1 ▸ List.mem_cons_self)
    show positionOf headMark (c :: (line ++ crlf ++ x)) = _
    rw [positionOf, if_neg away, ih fun inside => free (List.mem_cons_of_mem _ inside), Option.map_map]
    rfl

theorem isToken_ne {b : UInt8} (token : isToken b = true) : b ≠ 0x0D := by
  rintro rfl
  exact absurd token (by decide)

theorem Field.Formed.free {f : Field} (formed : f.Formed) : 0x0D ∉ f.text := by
  rw [Field.text, List.mem_append, List.mem_cons]
  rintro (inside | same | inside)
  · exact isToken_ne (formed.name.2 _ inside) rfl
  · exact absurd same (by decide)
  · exact (formed.value _ inside).1 rfl

theorem headFrom_isHead {line : Bytes} {fields : List Field} (free : 0x0D ∉ line) (formed : ∀ f ∈ fields, f.Formed) :
    IsHead (headFrom line fields) := by
  induction fields generalizing line with
  | nil =>
    refine ⟨line, by rw [headFrom, List.flatMap_nil, List.append_nil, List.append_assoc]; rfl, ?_⟩
    have found : positionOf headMark (line ++ headMark ++ []) = some line.length := Wire.positionOf_past free
    rw [List.append_nil] at found
    rw [headFrom, List.flatMap_nil, List.append_nil, List.append_assoc]
    exact found
  | cons f fields ih =>
    have first := formed f List.mem_cons_self
    obtain ⟨front, same, found⟩ := ih first.free fun f inside => formed f (List.mem_cons_of_mem _ inside)
    have whole : headFrom line (f :: fields) = line ++ crlf ++ headFrom f.text fields := by
      simp only [headFrom, List.flatMap_cons, List.append_assoc]
    have next : (headFrom f.text fields).head? ≠ some 0x0D := by
      obtain ⟨b, name, is⟩ := List.exists_cons_of_ne_nil first.name.1
      have begins : (headFrom f.text fields).head? = some b := by
        rw [headFrom, Field.text, is]
        rfl
      rw [begins]
      intro same
      exact isToken_ne (first.name.2 b (is ▸ List.mem_cons_self)) (Option.some.inj same)
    refine ⟨line ++ crlf ++ front, by rw [whole, same, ← List.append_assoc], ?_⟩
    have length : (line ++ crlf ++ front).length = (line ++ crlf).length + front.length := List.length_append
    rw [whole, positionOf_line free next, found, Option.map_some, length, Nat.add_comm]

/-! ## The lines of a head -/

theorem addLine_fields (l : String) (h : Head) : (h.addLine l).lines = h.lines ∧
    (h.addLine l).isChunked = (h.isChunked || isCoding l) ∧
    (h.addLine l).contentLength = if isLength l then lengthOf l else h.contentLength := by
  unfold Head.addLine
  dsimp only
  generalize isLength l = length
  generalize isCoding l = coding
  generalize (hasPrefix (lowercased l) "connection:" && contains (lowercased l) "upgrade") = connection
  generalize (hasPrefix (lowercased l) "upgrade:" && (contains (lowercased l) "tcp" || contains (lowercased l) "h2c" ||
    contains (lowercased l) "hijack")) = up
  cases length <;> cases coding <;> cases connection <;> cases up <;> simp

theorem addLines_lines (ls : List String) (h : Head) : (ls.foldl Head.addLine h).lines = h.lines := by
  induction ls generalizing h with
  | nil => rfl
  | cons l ls ih => rw [List.foldl_cons, ih, (addLine_fields l h).1]

theorem addLines_chunked (ls : List String) (h : Head) :
    (ls.foldl Head.addLine h).isChunked = (h.isChunked || ls.any isCoding) := by
  induction ls generalizing h with
  | nil => rw [List.any_nil, Bool.or_false]; rfl
  | cons l ls ih => rw [List.foldl_cons, ih, (addLine_fields l h).2.1, List.any_cons, Bool.or_assoc]

/-- If all lines that give a length give the same. -/
theorem addLines_length (ls : List String) (h : Head) {n : Option Int} (each : ∀ l ∈ ls, isLength l = true → lengthOf l = n) :
    (ls.foldl Head.addLine h).contentLength = if ls.any isLength then n else h.contentLength := by
  induction ls generalizing h with
  | nil => rfl
  | cons l ls ih =>
    rw [List.foldl_cons, ih _ fun l inside => each l (List.mem_cons_of_mem _ inside), (addLine_fields l h).2.2, List.any_cons]
    cases any : ls.any isLength with
    | true => rw [Bool.or_true, if_pos rfl, if_pos rfl]
    | false =>
      rw [Bool.or_false, if_neg Bool.false_ne_true]
      split
      next is => exact each l List.mem_cons_self is
      next => rfl

/-- A head is what its lines add to one that says nothing. -/
theorem ofText_folded (scan : Head.ofText s = some h) : ∃ first up,
    (first : Head).lines = (Desktop.crlfLines s.toList).map String.ofList ∧ first.contentLength = none ∧ first.isChunked = false ∧
      h = { first.lines.foldl Head.addLine first with isUpgrade := up } := by
  unfold Head.ofText at scan
  cases lines : (Desktop.crlfLines s.toList).map String.ofList with
  | nil =>
    rw [lines] at scan
    cases scan
  | cons requestLine more =>
    rw [lines] at scan
    dsimp only at scan
    split at scan
    · cases scan
    · have same := Option.some.inj scan
      split at same
      · exact ⟨_, true, rfl, rfl, rfl, same.symm⟩
      · exact ⟨⟨_, _, requestLine :: more, none, false, false⟩, _, rfl, rfl, rfl, same.symm⟩

theorem ofText_lines (scan : Head.ofText s = some h) : h.lines = (Desktop.crlfLines s.toList).map String.ofList := by
  obtain ⟨first, up, lines, -, -, rfl⟩ := ofText_folded scan
  rw [← lines]
  exact addLines_lines ..

theorem ofText_chunked (scan : Head.ofText s = some h) : h.isChunked = h.lines.any isCoding := by
  rw [ofText_lines scan]
  obtain ⟨first, up, lines, -, none_, rfl⟩ := ofText_folded scan
  have folded := addLines_chunked first.lines first
  rw [none_, Bool.false_or] at folded
  rw [← lines]
  exact folded

theorem ofText_length (scan : Head.ofText s = some h) {n : Option Int}
    (each : ∀ l ∈ h.lines, isLength l = true → lengthOf l = n) :
    h.contentLength = if h.lines.any isLength then n else none := by
  rw [ofText_lines scan] at each ⊢
  obtain ⟨first, up, lines, none_, -, rfl⟩ := ofText_folded scan
  rw [← lines] at each ⊢
  have folded := addLines_length first.lines first each
  rwa [none_] at folded

theorem crlfLines_joined (cs : List Char) : ("\r\n".toList).intercalate (Desktop.crlfLines cs) = cs := by
  induction cs using Desktop.crlfLines.induct with
  | case1 => rfl
  | case2 cs ih =>
    rw [Desktop.crlfLines, List.intercalate_cons_of_ne_nil (Desktop.crlfLines_some cs), ih]
    rfl
  | case3 c cs apart none_ ih => exact absurd none_ (Desktop.crlfLines_some cs)
  | case4 c cs apart l ls lines ih =>
    rw [lines] at ih
    rw [Desktop.crlfLines, lines]
    · dsimp only
      cases ls with
      | nil => rw [List.intercalate_singleton, ← ih, List.intercalate_singleton]
      | cons l' ls => rw [List.intercalate_cons_cons, ← ih, List.intercalate_cons_cons]; rfl
    · exact apart

theorem ofText_none (none_ : Head.ofText s = none) : s.toList.head? = none ∨ s.toList.head? = some '\r' := by
  have joined := crlfLines_joined s.toList
  unfold Head.ofText at none_
  cases lines : Desktop.crlfLines s.toList with
  | nil => exact absurd lines (Desktop.crlfLines_some _)
  | cons l ls =>
    rw [lines] at none_ joined
    rw [List.map_cons] at none_
    dsimp only at none_
    split at none_
    next empty =>
      have none_ : l = [] := by rw [← String.toList_ofList (l := l), empty]; rfl
      rw [← joined, none_]
      cases ls with
      | nil => exact .inl rfl
      | cons l' ls =>
        rw [List.intercalate_cons_cons]
        exact .inr rfl
    next => cases none_

/-! ## Well-formed heads -/

theorem utf8_inj {t u : String} (same : utf8 t = utf8 u) : t = u := by
  have text := Wire.fromUtf8_utf8 t
  rw [same, Wire.fromUtf8_utf8] at text
  exact (Option.some.inj text).symm

/-- A text around a byte below 128. -/
theorem utf8_split {t : String} {a x : Bytes} {b : UInt8} {c : Char} (code : c.toNat = b.toNat) (ascii : b.toNat < 128)
    (whole : utf8 t = a ++ b :: x) : ∃ u v, utf8 u = a ∧ utf8 v = x ∧ t = u ++ (String.singleton c ++ v) := by
  rw [Wire.utf8_eq] at whole
  obtain ⟨ds, d, es, split, front, alone, back⟩ := Wire.chars_split ascii whole
  have char : d = c := Char.toNat_inj.mp ((Wire.mem_utf8EncodeChar (alone ▸ List.mem_singleton_self _) ascii).trans code.symm)
  refine ⟨String.ofList ds, String.ofList es, ?_, ?_, ?_⟩
  · rw [Wire.utf8_eq, String.toList_ofList, front]
  · rw [Wire.utf8_eq, String.toList_ofList, back]
  · rw [← String.toList_inj, split, char]
    simp

/-- A text with its first line apart. -/
theorem crlfLines_first {t : String} {line x : Bytes} (free : 0x0D ∉ line) (whole : utf8 t = line ++ crlf ++ x) :
    ∃ l u, utf8 l = line ∧ utf8 u = x ∧ (Desktop.crlfLines t.toList).map String.ofList =
      l :: (Desktop.crlfLines u.toList).map String.ofList := by
  rw [List.append_assoc] at whole
  obtain ⟨l, v, rfl, behind, rfl⟩ := utf8_split (c := '\r') rfl (by decide) whole
  obtain ⟨e, u, empty, rfl, rfl⟩ := utf8_split (c := '\n') (a := []) rfl (by decide) behind
  obtain rfl : e = "" := utf8_inj empty
  have apart : '\r' ∉ l.toList := fun inside => free ((Wire.ascii_utf8 rfl (by decide)).mpr inside)
  refine ⟨l, u, rfl, rfl, ?_⟩
  have chars : (l ++ (String.singleton '\r' ++ ("" ++ (String.singleton '\n' ++ u)))).toList = l.toList ++
      '\r' :: '\n' :: u.toList := by
    simp
  rw [chars, Desktop.crlfLines_line apart, List.map_cons, String.ofList_toList]

/-- The lines of a head, as texts. -/
theorem headFrom_lines {t : String} {line : Bytes} {fields : List Field} (free : 0x0D ∉ line) (formed : ∀ f ∈ fields, f.Formed)
    (whole : headFrom line fields = utf8 t) : ∃ l ls, utf8 l = line ∧ ls.map utf8 = fields.map Field.text ∧
      (Desktop.crlfLines t.toList).map String.ofList = l :: (ls ++ ["", ""]) := by
  induction fields generalizing line t with
  | nil =>
    rw [headFrom, List.flatMap_nil, List.append_nil] at whole
    obtain ⟨l, u, text, ends, lines⟩ := crlfLines_first free whole.symm
    have blank : utf8 u = [] ++ crlf ++ [] := ends
    obtain ⟨e, v, empty, rest, more⟩ := crlfLines_first List.not_mem_nil blank
    obtain rfl : e = "" := utf8_inj empty
    obtain rfl : v = "" := utf8_inj rest
    exact ⟨l, [], text, rfl, by rw [lines, more]; rfl⟩
  | cons f fields ih =>
    have split : headFrom line (f :: fields) = line ++ crlf ++ headFrom f.text fields := by
      simp only [headFrom, List.flatMap_cons, List.append_assoc]
    rw [split] at whole
    obtain ⟨l, u, text, ends, lines⟩ := crlfLines_first free whole.symm
    have later : ∀ f ∈ fields, f.Formed := fun f inside => formed f (List.mem_cons_of_mem _ inside)
    obtain ⟨l', ls, first, more, rest⟩ := ih (formed f List.mem_cons_self).free later ends.symm
    exact ⟨l, l' :: ls, text, by rw [List.map_cons, List.map_cons, first, more], by rw [lines, rest]; rfl⟩

/-! ## What a field says -/

theorem lowercased_append (t u : String) : lowercased (t ++ u) = lowercased t ++ lowercased u := by
  rw [lowercased, String.toList_append, List.map_append]
  rfl

/-- In lower case, a text of bytes below 128 is these bytes in lower case. -/
theorem utf8_lowercased {t : String} (ascii : ∀ b ∈ utf8 t, b.toNat < 128) :
    utf8 (String.ofList (lowercased t)) = (utf8 t).map Field.lower := by
  have known : ∀ n : Fin 128, String.utf8EncodeChar (if Char.ofNat n = '\u212a' then 'k' else (Char.ofNat n).toLower) =
      (String.utf8EncodeChar (Char.ofNat n)).map Field.lower := by decide +kernel
  rw [Wire.utf8_eq] at ascii
  rw [Wire.utf8_eq, Wire.utf8_eq, String.toList_ofList, lowercased]
  generalize t.toList = cs at ascii ⊢
  induction cs with
  | nil => rfl
  | cons c cs ih =>
    rw [List.flatMap_cons] at ascii
    have low : c.toNat < 128 := by
      obtain ⟨b, bs, first⟩ := List.exists_cons_of_ne_nil (String.utf8EncodeChar_ne_nil (c := c))
      have mem : b ∈ String.utf8EncodeChar c := first ▸ List.mem_cons_self
      have small := ascii b (List.mem_append_left _ mem)
      rwa [Wire.mem_utf8EncodeChar mem small]
    have first := known ⟨c.toNat, low⟩
    rw [Char.ofNat_toNat] at first
    rw [List.map_cons, List.flatMap_cons, List.flatMap_cons, List.map_append, first,
      ih fun b inside => ascii b (List.mem_append_right _ inside)]

/-- A mark in front of a text, of which the last character is not in what it is compared with. -/
theorem prefix_mark {p a w : List Char} {c d : Char} (free : c ∉ a) (free' : d ∉ p) :
    p ++ [c] <+: a ++ d :: w ↔ p = a ∧ c = d := by
  induction a generalizing p with
  | nil =>
    cases p with
    | nil => simp [List.cons_prefix_cons]
    | cons x p =>
      refine iff_of_false (fun begins => ?_) (fun both => by cases both.1)
      exact free' ((List.cons_prefix_cons.mp begins).1 ▸ List.mem_cons_self)
  | cons y a ih =>
    cases p with
    | nil =>
      refine iff_of_false (fun begins => ?_) (fun both => by cases both.1)
      exact free ((List.cons_prefix_cons.mp begins).1 ▸ List.mem_cons_self)
    | cons x p =>
      rw [List.cons_append, List.cons_append, List.cons_prefix_cons,
        ih (fun inside => free (List.mem_cons_of_mem _ inside)) fun inside => free' (List.mem_cons_of_mem _ inside),
          List.cons.injEq, and_assoc]

theorem isToken_ascii {b : UInt8} (token : isToken b = true) : b.toNat < 128 ∧ b ≠ 0x3A := by
  have each : ∀ b, isToken b = true → b.toNat < 128 ∧ b ≠ 0x3A := Desktop.forall_byte (by decide +kernel)
  exact each b token

/-- The text of a field. -/
structure Told (f : Field) (l n v : String) : Prop where
  line : l = n ++ (":" ++ v)
  name : utf8 n = f.name
  value : utf8 v = f.value

theorem told {f : Field} {l : String} (text : utf8 l = f.text) : ∃ n v, Told f l n v := by
  obtain ⟨n, v, name, value, line⟩ := utf8_split (c := ':') rfl (by decide) text
  exact ⟨n, v, line, name, value⟩

theorem lowercased_colon {t : String} (free : ∀ b ∈ utf8 t, b.toNat < 128 ∧ b ≠ 0x3A) : ':' ∉ lowercased t := by
  intro inside
  have mem : (0x3A : UInt8) ∈ utf8 (String.ofList (lowercased t)) :=
    (Wire.ascii_utf8 rfl (by decide)).mpr (by rwa [String.toList_ofList])
  rw [utf8_lowercased fun b mem => (free b mem).1, List.mem_map] at mem
  obtain ⟨b, mem, same⟩ := mem
  have each : ∀ b : UInt8, Field.lower b = 0x3A → b = 0x3A := Desktop.forall_byte (by decide +kernel)
  exact (free b mem).2 (each b same)

/-- The name in front of the first colon. -/
theorem named_iff {f : Field} {l n v : String} (name : String) (formed : f.Formed) (told : Told f l n v)
    (free : ':' ∉ name.toList) :
    hasPrefix (lowercased l) (name ++ ":") = true ↔ f.Named name := by
  have token : ∀ b ∈ utf8 n, b.toNat < 128 ∧ b ≠ 0x3A := fun b inside => isToken_ascii (formed.name.2 b (told.name ▸ inside))
  have split : lowercased l = lowercased n ++ ':' :: lowercased v := by
    rw [told.line, lowercased_append, lowercased_append]
    rfl
  have mark : (name ++ ":").toList = name.toList ++ [':'] := by simp
  rw [hasPrefix, split, mark, List.isPrefixOf_iff_prefix, prefix_mark (lowercased_colon token) free, Field.Named, ← told.name,
    ← utf8_lowercased fun b inside => (token b inside).1]
  constructor
  · rintro ⟨same, -⟩
    rw [← same, String.ofList_toList]
  · intro same
    exact ⟨by rw [← utf8_inj same, String.toList_ofList], rfl⟩

/-- The first line gives no length. -/
theorem method_other {l : String} {method rest : Bytes} (token : ∀ b ∈ method, isToken b = true)
    (text : utf8 l = method ++ 0x20 :: rest) :
    isLength l = false := by
  obtain ⟨m, v, name, -, line⟩ := utf8_split (c := ' ') rfl (by decide) text
  have split : lowercased l = lowercased m ++ ' ' :: lowercased v := by
    rw [line, lowercased_append, lowercased_append]
    rfl
  have mark : "content-length:".toList = "content-length".toList ++ [':'] := by decide
  rw [isLength, hasPrefix, split, mark]
  refine Bool.eq_false_iff.mpr fun begins => ?_
  have free : ':' ∉ lowercased m := lowercased_colon fun b inside => isToken_ascii (token b (name ▸ inside))
  have both := (prefix_mark free (by decide)).mp (List.isPrefixOf_iff_prefix.mp begins)
  exact absurd both.2 (by decide)

/-- A value, and the blanks around it. -/
theorem trimmed_split (f : Field) : ∃ before after : List Char,
    f.value = utf8 (String.ofList before) ++ f.trimmed ++ utf8 (String.ofList after) ∧
      (∀ c ∈ before ++ after, c = ' ' ∨ c = '\t') := by
  have blanks : ∀ bs : Bytes, (∀ b ∈ bs, isOws b = true) → ∃ cs : List Char, bs = utf8 (String.ofList cs) ∧
      ∀ c ∈ cs, c = ' ' ∨ c = '\t' := by
    intro bs each
    induction bs with
    | nil => exact ⟨[], rfl, nofun⟩
    | cons b bs ih =>
      obtain ⟨cs, rfl, chars⟩ := ih fun b inside => each b (List.mem_cons_of_mem _ inside)
      have first : b = 0x20 ∨ b = 0x09 := by simpa [isOws] using each b List.mem_cons_self
      have join : ∀ c : Char, utf8 (String.ofList (c :: cs)) = String.utf8EncodeChar c ++ utf8 (String.ofList cs) := by
        intro c
        rw [Wire.utf8_eq, Wire.utf8_eq, String.toList_ofList, String.toList_ofList, List.flatMap_cons]
      rcases first with rfl | rfl
      · exact ⟨' ' :: cs, (join ' ').symm, List.forall_mem_cons.mpr ⟨.inl rfl, chars⟩⟩
      · exact ⟨'\t' :: cs, (join '\t').symm, List.forall_mem_cons.mpr ⟨.inr rfl, chars⟩⟩
  have front : f.value = f.value.takeWhile isOws ++ f.value.dropWhile isOws := List.takeWhile_append_dropWhile.symm
  have back : f.value.dropWhile isOws = f.trimmed ++ ((f.value.dropWhile isOws).reverse.takeWhile isOws).reverse := by
    rw [Field.trimmed, ← List.reverse_append, List.takeWhile_append_dropWhile, List.reverse_reverse]
  obtain ⟨before, first, chars⟩ := blanks (f.value.takeWhile isOws) fun b inside =>
    List.all_eq_true.mp List.all_takeWhile b inside
  obtain ⟨after, last, chars'⟩ := blanks ((f.value.dropWhile isOws).reverse.takeWhile isOws).reverse
    fun b inside => List.all_eq_true.mp List.all_takeWhile b (List.mem_reverse.mp inside)
  refine ⟨before, after, ?_, List.forall_mem_append.mpr ⟨chars, chars'⟩⟩
  rw [← first, ← last, List.append_assoc, ← back]
  exact front

theorem coding_line {f : Field} {l n v : String} (formed : f.Formed) (told : Told f l n v) (named : f.Named "transfer-encoding")
    (coding : f.trimmed.map Field.lower = utf8 "chunked") : isCoding l = true := by
  have split : lowercased l = lowercased n ++ (':' :: lowercased v) := by
    rw [told.line, lowercased_append, lowercased_append]
    rfl
  have name : contains (lowercased l) "transfer-encoding:" = true := by
    obtain ⟨rest, same⟩ := List.isPrefixOf_iff_prefix.mp
      ((named_iff "transfer-encoding" formed told (by decide)).mpr named)
    rw [contains, ← same]
    exact Git.occurs_between [] rest
  obtain ⟨before, after, value, blank⟩ := trimmed_split f
  have low : ∀ cs : List Char, (∀ c ∈ cs, c = ' ' ∨ c = '\t') → (∀ b ∈ utf8 (String.ofList cs), b.toNat < 128) ∧
      (utf8 (String.ofList cs)).map Field.lower = utf8 (String.ofList cs) := by
    intro cs each
    induction cs with
    | nil => exact ⟨nofun, rfl⟩
    | cons c cs ih =>
      obtain ⟨small, same⟩ := ih fun c inside => each c (List.mem_cons_of_mem _ inside)
      have join : utf8 (String.ofList (c :: cs)) = String.utf8EncodeChar c ++ utf8 (String.ofList cs) := by
        rw [Wire.utf8_eq, Wire.utf8_eq, String.toList_ofList, String.toList_ofList, List.flatMap_cons]
      rw [join, List.map_append, same]
      rcases each c List.mem_cons_self with rfl | rfl
      · exact ⟨List.forall_mem_append.mpr ⟨by decide +kernel, small⟩, rfl⟩
      · exact ⟨List.forall_mem_append.mpr ⟨by decide +kernel, small⟩, rfl⟩
  obtain ⟨small, same⟩ := low before fun c inside => blank c (List.mem_append_left _ inside)
  obtain ⟨small', same'⟩ := low after fun c inside => blank c (List.mem_append_right _ inside)
  have inner : ∀ b ∈ f.trimmed, b.toNat < 128 := by
    intro b inside
    have known : ∀ b : UInt8, (Field.lower b).toNat < 128 → b.toNat < 128 := Desktop.forall_byte (by decide +kernel)
    have letter : Field.lower b ∈ utf8 "chunked" := coding ▸ List.mem_map_of_mem inside
    have letters : ∀ b ∈ utf8 "chunked", b.toNat < 128 := by decide +kernel
    exact known b (letters _ letter)
  have ascii : ∀ b ∈ utf8 v, b.toNat < 128 := by
    rw [told.value, value]
    exact List.forall_mem_append.mpr ⟨List.forall_mem_append.mpr ⟨small, inner⟩, small'⟩
  have chars : lowercased v = before ++ ("chunked".toList ++ after) := by
    have bytes : utf8 (String.ofList (lowercased v)) = utf8 (String.ofList (before ++ ("chunked".toList ++ after))) := by
      rw [utf8_lowercased ascii, told.value, value, List.map_append, List.map_append, same, same', coding, String.ofList_append,
        String.ofList_append, Wire.utf8_append, Wire.utf8_append, String.ofList_toList, List.append_assoc]
    have text := congrArg String.toList (utf8_inj bytes)
    rwa [String.toList_ofList, String.toList_ofList] at text
  have value' : contains (lowercased l) "chunked" = true := by
    have apart : lowercased l = (lowercased n ++ ':' :: before) ++ ("chunked".toList ++ after) := by
      rw [split, chars, List.append_assoc]
      rfl
    rw [contains, apart]
    exact Git.occurs_between _ after
  rw [isCoding, name, value']
  rfl

theorem isWhitespace_digit {c : Char} {d : Nat} (digit : Wire.digitValue c = some d) :
    isWhitespace c = false ∧ c ≠ ':' ∧ c ≠ '-' ∧ c ≠ '+' := by
  have other : ∀ e : Char, Wire.digitValue e = none → c ≠ e := by
    rintro _ none_ rfl
    cases none_.symm.trans digit
  refine ⟨?_, other _ (by decide), other _ (by decide), other _ (by decide)⟩
  have range := Wire.digitValue_cases digit
  simp only [isWhitespace, Bool.or_eq_false_iff, Bool.and_eq_false_iff, decide_eq_false_iff_not]
  omega

theorem trimmed_between {before after digits : List Char} (blank : ∀ c ∈ before ++ after, isWhitespace c = true)
    (inner : ∀ c ∈ digits, isWhitespace c = false) (some_ : digits ≠ []) :
      trimmed (String.ofList (before ++ (digits ++ after))) = String.ofList digits := by
  have front : (before ++ (digits ++ after)).dropWhile isWhitespace = digits ++ after := by
    rw [List.dropWhile_append_of_pos fun c inside => blank c (List.mem_append_left _ inside)]
    obtain ⟨d, ds, rfl⟩ := List.exists_cons_of_ne_nil some_
    rw [List.cons_append, List.dropWhile_cons_of_neg (Bool.eq_false_iff.mp (inner d List.mem_cons_self))]
  have back : (digits ++ after).reverse.dropWhile isWhitespace = digits.reverse := by
    rw [List.reverse_append, List.dropWhile_append_of_pos fun c inside =>
      blank c (List.mem_append_right _ (List.mem_reverse.mp inside))]
    obtain ⟨d, ds, same⟩ := List.exists_cons_of_ne_nil (List.reverse_ne_nil_iff.mpr some_)
    have outer : d ∈ digits := List.mem_reverse.mp (same ▸ List.mem_cons_self)
    rw [same, List.dropWhile_cons_of_neg (Bool.eq_false_iff.mp (inner d outer))]
  rw [trimmed, String.toList_ofList, front, back, List.reverse_reverse]

theorem length_line {f : Field} {l n v : String} {digits : List Char} {len : Nat} (told : Told f l n v)
    (value : f.trimmed = utf8 (String.ofList digits)) (some_ : digits ≠ []) (reads : Wire.readDigits 10 0 digits = some len)
      (fits : len ≤ maxInt) :
    lengthOf l = some (len : Int) := by
  obtain ⟨before, after, whole, blank⟩ := trimmed_split f
  have digit : ∀ c ∈ digits, isWhitespace c = false ∧ c ≠ ':' ∧ c ≠ '-' ∧ c ≠ '+' := by
    intro c inside
    obtain ⟨d, is⟩ := Wire.digits_of_readDigits reads c inside
    exact isWhitespace_digit is
  have text : v = String.ofList (before ++ (digits ++ after)) := by
    refine utf8_inj ?_
    rw [told.value, whole, value, String.ofList_append, String.ofList_append, Wire.utf8_append, Wire.utf8_append,
      List.append_assoc]
  have free : Wire.Free ':' v := by
    rw [text, Wire.Free, String.toList_ofList, List.mem_append, List.mem_append]
    rintro (inside | inside | inside)
    · exact absurd (blank _ (List.mem_append_left _ inside)) (by decide)
    · exact (digit _ inside).2.1 rfl
    · exact absurd (blank _ (List.mem_append_right _ inside)) (by decide)
  have last : Wire.rsplitOnce ':' l = some (n, v) := by
    rw [told.line]
    exact Wire.rsplitOnce_append free
  have trims : trimmed v = String.ofList digits := by
    rw [text]
    refine trimmed_between (fun c inside => ?_) (fun c inside => (digit c inside).1) some_
    rcases blank c inside with rfl | rfl <;> decide
  rw [lengthOf, last]
  show Host.Machine.swiftInt (trimmed v) = _
  have reads' : Wire.unsigned 10 9223372036854775807 digits = some len := by
    rw [Wire.unsigned, if_neg some_, reads]
    exact Option.filter_some_pos (decide_eq_true fits)
  rw [trims, Host.Machine.swiftInt, Wire.parseSigned, String.toList_ofList]
  split
  · exact absurd rfl (digit '-' List.mem_cons_self).2.2.1
  · exact absurd rfl (digit '+' List.mem_cons_self).2.2.2
  · rw [reads']
    rfl

theorem WellFormed.good (formed : WellFormed r) (clear : Clear r) : Good r := by
  obtain ⟨method, target, version, fields, head, token, visible, lines, framed⟩ := formed
  have free : (0x0D : UInt8) ∉ method ++ 0x20 :: target ++ 0x20 :: version := by
    simp only [List.mem_append, List.mem_cons, not_or]
    have outside : (0x0D : UInt8) ∉ target ++ version := fun inside => absurd (visible _ inside) (by decide)
    rw [List.mem_append, not_or] at outside
    exact ⟨⟨fun inside => isToken_ne (token.2 _ inside) rfl, by decide, outside.1⟩, by decide, outside.2⟩
  refine ⟨head ▸ headFrom_isHead free lines, fun s text none_ => ?_, fun s h text scan => ?_⟩
  · obtain ⟨b, more, is⟩ := List.exists_cons_of_ne_nil token.1
    have begins : r.head.head? = some b := by rw [head, is]; rfl
    have other : b ≠ 0x0D := isToken_ne (token.2 b (is ▸ List.mem_cons_self))
    rw [Wire.fromUtf8_iff.mp text, Wire.utf8_eq] at begins
    cases chars : s.toList with
    | nil =>
      rw [chars] at begins
      cases begins
    | cons c cs =>
      rcases ofText_none none_ with first | first <;> rw [chars] at first
      · cases first
      · cases first
        rw [chars] at begins
        exact other (Option.some.inj begins).symm
  · obtain ⟨l, ls, first, rest, each⟩ := headFrom_lines free lines (head ▸ Wire.fromUtf8_iff.mp text)
    have read : h.lines = l :: (ls ++ ["", ""]) := (ofText_lines scan).trans each
    have looks : h.isChunked = true ↔ LooksChunked r := by
      rw [ofText_chunked scan, ofText_lines scan, List.any_eq_true]
      constructor
      · exact fun some_ => ⟨s, text, some_⟩
      · rintro ⟨s', text', some_⟩
        cases text.symm.trans text'
        exact some_
    have field : ∀ f ∈ fields, ∃ l' ∈ h.lines, ∃ n v, Told f l' n v := by
      intro f inside
      have mem : f.text ∈ ls.map utf8 := rest ▸ List.mem_map_of_mem inside
      obtain ⟨l', mem', text'⟩ := List.mem_map.mp mem
      exact ⟨l', read ▸ List.mem_cons_of_mem _ (List.mem_append_left _ mem'), told text'⟩
    have whole : h.isChunked = false → r.chunked = false := by
      intro plain
      refine Bool.eq_false_iff.mpr fun chunked => ?_
      obtain ⟨f, inside, named⟩ := (framed.chunked chunked).1
      obtain ⟨l', mem, n, v, told⟩ := field f inside
      rw [ofText_chunked scan] at plain
      exact List.any_eq_false.mp plain l' mem (coding_line (lines f inside) told named (framed.coding f inside named).2)
    refine ⟨looks, fun is => clear.ends (looks.mp is), fun is => clear.other (looks.mp is), whole, fun plain => ?_⟩
    have fits := clear.fits fun is => absurd (looks.mpr is) (Bool.eq_false_iff.mp plain)
    refine ⟨?_, fits⟩
    have given : ∀ f ∈ fields, ∀ l' n v, Told f l' n v → f.Named "content-length" → lengthOf l' = some (r.body.length : Int) := by
      intro f inside l' n v told named
      obtain ⟨digits, value, some_, reads⟩ := framed.length f inside named
      exact length_line told value some_ reads (by omega)
    have agree : ∀ l' ∈ h.lines, isLength l' = true → lengthOf l' = some (r.body.length : Int) := by
      intro l' mem is
      rw [read, List.mem_cons, List.mem_append] at mem
      rcases mem with rfl | mem | mem
      · have line : utf8 l' = method ++ 0x20 :: (target ++ 0x20 :: version) := by rw [first, List.append_assoc]; rfl
        rw [method_other token.2 line] at is
        cases is
      · have mem' : utf8 l' ∈ fields.map Field.text := rest ▸ List.mem_map_of_mem mem
        obtain ⟨f, inside, same⟩ := List.mem_map.mp mem'
        obtain ⟨n, v, told⟩ := told same.symm
        exact given f inside l' n v told ((named_iff "content-length" (lines f inside) told (by decide)).mp is)
      · have empty : l' = "" := by simpa using mem
        rw [empty] at is
        exact absurd is (by decide)
    rw [ofText_length scan agree]
    cases any : h.lines.any isLength with
    | true => rfl
    | false =>
      have none_ : ∀ f ∈ fields, ¬ f.Named "content-length" := by
        intro f inside named
        obtain ⟨l', mem, n, v, told⟩ := field f inside
        have is : isLength l' = true := (named_iff "content-length" (lines f inside) told (by decide)).mpr named
        exact List.any_eq_false.mp any l' mem is
      rw [framed.empty (whole plain) none_]
      rfl

end Harpoon.UnixBridge
