import Harpoon.Laws.UnixBridge

/-!
# Reading requests

The bytes of well-formed requests are read as these requests, and in no other way: a head ends at its first empty line,
its fields are what they are, and they say where the body ends.
-/

namespace Harpoon.UnixBridge

open Desktop (IsHead headMark)
open Wire (Bytes utf8)

variable {r r' : Request} {a b x y : Bytes}

/-! ## The parts of a request -/

/-- A body in chunks, and what it carries. -/
inductive Chunks : Bytes → Bytes → Prop where
  | last {line : Bytes} {trailers : List Field} : SizeLine 0 line → (∀ f ∈ trailers, f.Formed) →
      Chunks (headFrom line trailers) []
  | chunk {line data rest content : Bytes} : data ≠ [] → SizeLine data.length line → Chunks rest content →
      Chunks (line ++ crlf ++ data ++ crlf ++ rest) (data ++ content)

theorem ChunkedBody.chunks {body : Bytes} (chunked : ChunkedBody body) : ∃ content, Chunks body content := by
  induction chunked with
  | last size formed => exact ⟨[], .last size formed⟩
  | chunk some_ size _ ih =>
    obtain ⟨content, rest⟩ := ih
    exact ⟨_, .chunk some_ size rest⟩

theorem Chunks.body {content : Bytes} (chunks : Chunks a content) : ChunkedBody a := by
  induction chunks with
  | last size formed => exact .last size formed
  | chunk some_ size _ ih => exact .chunk some_ size ih

/-- A head of a request line and fields. -/
structure Lined (head method target version : Bytes) (fields : List Field) : Prop where
  whole : head = headFrom (method ++ 0x20 :: target ++ 0x20 :: version) fields
  method : method ≠ [] ∧ ∀ b ∈ method, isToken b = true
  visible : ∀ b ∈ target ++ version, isVisible b = true
  formed : ∀ f ∈ fields, f.Formed

theorem wellFormed_iff : WellFormed r ↔
    ∃ method target version fields, Lined r.head method target version fields ∧ Framed fields r := by
  constructor
  · rintro ⟨method, target, version, fields, whole, token, visible, formed, framed⟩
    exact ⟨method, target, version, fields, ⟨whole, token, visible, formed⟩, framed⟩
  · rintro ⟨method, target, version, fields, lined, framed⟩
    exact ⟨method, target, version, fields, lined.whole, lined.method, lined.visible, lined.formed, framed⟩

theorem Lined.free {head method target version : Bytes} {fields : List Field}
    (lined : Lined head method target version fields) : (0x0D : UInt8) ∉ method ++ 0x20 :: target ++ 0x20 :: version := by
  have outside : (0x0D : UInt8) ∉ target ++ version := fun inside => absurd (lined.visible _ inside) (by decide)
  rw [List.mem_append, not_or] at outside
  simp only [List.mem_append, List.mem_cons, not_or]
  exact ⟨⟨fun inside => isToken_ne (lined.method.2 _ inside) rfl, by decide, outside.1⟩, by decide, outside.2⟩

/-! ## One way to read -/

theorem cut_unique {c : UInt8} (free : c ∉ a) (free' : c ∉ b) (same : a ++ c :: x = b ++ c :: y) : a = b ∧ x = y := by
  induction a generalizing b with
  | nil =>
    cases b with
    | nil => exact ⟨rfl, (List.cons.inj same).2⟩
    | cons d b => exact absurd ((List.cons.inj same).1 ▸ List.mem_cons_self) free'
  | cons d a ih =>
    cases b with
    | nil => exact absurd ((List.cons.inj same).1 ▸ List.mem_cons_self) free
    | cons e b =>
      obtain ⟨rfl, rest⟩ := List.cons.inj same
      obtain ⟨rfl, rfl⟩ := ih (fun inside => free (List.mem_cons_of_mem _ inside)) (fun inside =>
        free' (List.mem_cons_of_mem _ inside)) rest
      exact ⟨rfl, rfl⟩

theorem line_unique (free : 0x0D ∉ a) (free' : 0x0D ∉ b) (same : a ++ crlf ++ x = b ++ crlf ++ y) : a = b ∧ x = y := by
  rw [List.append_assoc, List.append_assoc] at same
  obtain ⟨rfl, rest⟩ := cut_unique free free' same
  exact ⟨rfl, (List.cons.inj rest).2⟩

theorem head_unique (is : IsHead a) (is' : IsHead b) (same : a ++ x = b ++ y) : a = b ∧ x = y := by
  obtain ⟨front, split, first⟩ := is
  obtain ⟨front', split', first'⟩ := is'
  have found := Wire.positionOf_append (b := x) first
  rw [same, Wire.positionOf_append first'] at found
  have length : a.length = b.length := by
    rw [split, split', List.length_append, List.length_append, Option.some.inj found]
  exact List.append_inj same length

theorem headFrom_cons (line : Bytes) (f : Field) (fields : List Field) :
    headFrom line (f :: fields) = line ++ crlf ++ headFrom f.text fields := by
  simp only [headFrom, List.flatMap_cons, List.append_assoc]

theorem headFrom_nil (line : Bytes) : headFrom line [] = line ++ crlf ++ crlf := by
  rw [headFrom, List.flatMap_nil, List.append_nil]

theorem Field.text_inj {f g : Field} (formed : f.Formed) (formed' : g.Formed) (same : f.text = g.text) : f = g := by
  have free : ∀ {f : Field}, f.Formed → (0x3A : UInt8) ∉ f.name := fun formed inside =>
    (isToken_ascii (formed.name.2 _ inside)).2 rfl
  obtain ⟨name, value⟩ := cut_unique (free formed) (free formed') same
  cases f
  cases g
  cases name
  cases value
  rfl

theorem Field.text_ne {f : Field} {fields : List Field} (formed : f.Formed) (same : crlf = headFrom f.text fields) : False := by
  obtain ⟨b, name, is⟩ := List.exists_cons_of_ne_nil formed.name.1
  have first : (headFrom f.text fields).head? = some b := by
    rw [headFrom, Field.text, is]
    rfl
  rw [← same] at first
  exact isToken_ne (formed.name.2 b (is ▸ List.mem_cons_self)) (Option.some.inj first).symm

theorem headFrom_inj {F G : List Field} (free : 0x0D ∉ a) (free' : 0x0D ∉ b) (formed : ∀ f ∈ F, f.Formed)
    (formed' : ∀ g ∈ G, g.Formed)
    (same : headFrom a F = headFrom b G) : a = b ∧ F = G := by
  induction F generalizing a b G with
  | nil =>
    cases G with
    | nil =>
      rw [headFrom_nil, headFrom_nil] at same
      exact ⟨(line_unique free free' same).1, rfl⟩
    | cons g G =>
      rw [headFrom_nil, headFrom_cons] at same
      exact (Field.text_ne (formed' g List.mem_cons_self) (line_unique free free' same).2).elim
  | cons f F ih =>
    cases G with
    | nil =>
      rw [headFrom_nil, headFrom_cons] at same
      exact (Field.text_ne (formed f List.mem_cons_self) (line_unique free free' same).2.symm).elim
    | cons g G =>
      rw [headFrom_cons, headFrom_cons] at same
      obtain ⟨rfl, rest⟩ := line_unique free free' same
      have first := formed f List.mem_cons_self
      have first' := formed' g List.mem_cons_self
      obtain ⟨text, rfl⟩ := ih first.free first'.free (fun f inside => formed f (List.mem_cons_of_mem _ inside))
        (fun g inside => formed' g (List.mem_cons_of_mem _ inside)) rest
      rw [Field.text_inj first first' text]
      exact ⟨rfl, rfl⟩

/-! ### Chunks -/

theorem digits_free {base n m : Nat} {digits : List Char} {c : Char} {d : UInt8} (reads : Wire.readDigits base n digits = some m)
    (other : Wire.digitValue c = none) (code : c.toNat = d.toNat) (ascii : d.toNat < 128) : d ∉ utf8 (String.ofList digits) := by
  intro inside
  have mem := (Wire.ascii_utf8 code ascii).mp inside
  rw [String.toList_ofList] at mem
  obtain ⟨v, value⟩ := Wire.digits_of_readDigits reads c mem
  cases other.symm.trans value

theorem SizeLine.free {n : Nat} (size : SizeLine n a) : 0x0D ∉ a := by
  obtain ⟨digits, extension, rfl, -, reads, -, rest⟩ := size
  rw [List.mem_append]
  rintro (inside | inside)
  · exact digits_free (c := '\r') reads (by decide) rfl (by decide) inside
  · exact (rest _ inside).1 rfl

theorem SizeLine.unique {n m : Nat} (size : SizeLine n a) (size' : SizeLine m a) : n = m := by
  have front : ∀ {n}, SizeLine n a → ∃ digits, a.takeWhile (· ≠ 0x3B) = utf8 (String.ofList digits) ∧
      Wire.readDigits 16 0 digits = some n := by
    rintro n ⟨digits, extension, rfl, -, reads, begins, -⟩
    have free : (0x3B : UInt8) ∉ utf8 (String.ofList digits) := digits_free (c := ';') reads (by decide) rfl (by decide)
    refine ⟨digits, ?_, reads⟩
    have other : ∀ d ∈ utf8 (String.ofList digits), decide (d ≠ 0x3B) = true := by
      intro d inside
      refine decide_eq_true ?_
      rintro rfl
      exact free inside
    rw [List.takeWhile_append_of_pos other]
    rcases begins with rfl | begins
    · rw [List.takeWhile_nil, List.append_nil]
    · cases extension with
      | nil => cases begins
      | cons d extension =>
        cases begins
        rw [List.takeWhile_cons_of_neg (by decide), List.append_nil]
  obtain ⟨digits, text, reads⟩ := front size
  obtain ⟨digits', text', reads'⟩ := front size'
  have same : digits = digits' := by
    have texts := utf8_inj (text.symm.trans text')
    rw [← String.toList_ofList (l := digits), texts, String.toList_ofList]
  rw [same, reads'] at reads
  exact (Option.some.inj reads).symm

theorem Chunks.unique {p q : Bytes} (chunks : Chunks a p) (chunks' : Chunks b q) (same : a ++ x = b ++ y) : a = b ∧ p = q := by
  induction chunks generalizing b q with
  | @last line trailers size formed =>
    cases chunks' with
    | last size' formed' => exact ⟨(head_unique (headFrom_isHead size.free formed) (headFrom_isHead size'.free formed') same).1,
      rfl⟩
    | @chunk line' data rest content some_ size' chunks' =>
      exfalso
      have line : line = line' := by
        rw [headFrom] at same
        simp only [List.append_assoc] at same
        rw [← List.append_assoc, ← List.append_assoc line'] at same
        exact (line_unique size.free size'.free same).1
      have empty := size.unique (line ▸ size')
      exact some_ (List.eq_nil_of_length_eq_zero empty.symm)
  | @chunk line data rest content some_ size chunks ih =>
    cases chunks' with
    | @last line' trailers size' formed' =>
      exfalso
      have line : line = line' := by
        rw [headFrom] at same
        simp only [List.append_assoc] at same
        rw [← List.append_assoc, ← List.append_assoc line'] at same
        exact (line_unique size.free size'.free same).1
      have empty := size'.unique (line ▸ size)
      exact some_ (List.eq_nil_of_length_eq_zero empty.symm)
    | @chunk line' data' rest' content' some_' size' chunks' =>
      have split : line ++ crlf ++ (data ++ (crlf ++ (rest ++ x))) = line' ++ crlf ++ (data' ++ (crlf ++ (rest' ++ y))) := by
        simpa only [List.append_assoc] using same
      obtain ⟨rfl, after⟩ := line_unique size.free size'.free split
      obtain ⟨rfl, behind⟩ := List.append_inj after (size.unique size')
      obtain ⟨rfl, rfl⟩ := ih chunks' (List.append_cancel_left behind)
      exact ⟨rfl, rfl⟩

/-! ### Requests -/

theorem Lined.unique {head m t v m' t' v' : Bytes} {F G : List Field} (lined : Lined head m t v F)
    (lined' : Lined head m' t' v' G) :
    m ++ 0x20 :: t ++ 0x20 :: v = m' ++ 0x20 :: t' ++ 0x20 :: v' ∧ F = G :=
  headFrom_inj lined.free lined'.free lined.formed lined'.formed (lined.whole.symm.trans lined'.whole)

theorem WellFormed.isHead (formed : WellFormed r) : IsHead r.head := by
  obtain ⟨_, _, _, _, lined, -⟩ := wellFormed_iff.mp formed
  exact lined.whole ▸ headFrom_isHead lined.free lined.formed

/-- No two requests begin the same bytes. -/
theorem WellFormed.unique (formed : WellFormed r) (formed' : WellFormed r') (same : r.bytes ++ x = r'.bytes ++ y) :
    r = r' ∧ x = y := by
  rw [Request.bytes, Request.bytes, List.append_assoc, List.append_assoc] at same
  obtain ⟨head, bodies⟩ := head_unique formed.isHead formed'.isHead same
  obtain ⟨_, _, _, fields, lined, framed⟩ := wellFormed_iff.mp formed
  obtain ⟨_, _, _, fields', lined', framed'⟩ := wellFormed_iff.mp formed'
  obtain rfl : fields = fields' := (lined.unique (head ▸ lined')).2
  have coded : ∀ {q q' : Request}, Framed fields q → Framed fields q' → q.chunked = true → q'.chunked = true := by
    intro q q' framed framed' chunked
    obtain ⟨f, inside, named⟩ := (framed.chunked chunked).1
    exact (framed'.coding f inside named).1
  have chunked : r.chunked = r'.chunked := Bool.eq_iff_iff.mpr ⟨coded framed framed', coded framed' framed⟩
  have body : r.body = r'.body := by
    cases is : r.chunked with
    | true =>
      obtain ⟨_, chunks⟩ := (framed.chunked is).2.2.chunks
      obtain ⟨_, chunks'⟩ := (framed'.chunked (chunked ▸ is)).2.2.chunks
      exact (chunks.unique chunks' bodies).1
    | false =>
      have is' : r'.chunked = false := chunked ▸ is
      by_cases named : ∃ f ∈ fields, f.Named "content-length"
      · obtain ⟨f, inside, named⟩ := named
        obtain ⟨digits, text, -, reads⟩ := framed.length f inside named
        obtain ⟨digits', text', -, reads'⟩ := framed'.length f inside named
        have digits_eq : digits = digits' := by
          have texts := utf8_inj (text.symm.trans text')
          rw [← String.toList_ofList (l := digits), texts, String.toList_ofList]
        rw [digits_eq, reads'] at reads
        exact (List.append_inj bodies (Option.some.inj reads).symm).1
      · have none_ : ∀ f ∈ fields, ¬ f.Named "content-length" := fun f inside is => named ⟨f, inside, is⟩
        rw [framed.empty is none_, framed'.empty is' none_]
  rw [body] at bodies
  refine ⟨?_, List.append_cancel_left bodies⟩
  cases r
  cases r'
  cases head
  cases body
  cases chunked
  rfl

/-- What is read of well-formed requests are these requests. -/
theorem read_front {rs all : List Request} (formed : ∀ r ∈ rs, WellFormed r) (formed' : ∀ r ∈ all, WellFormed r)
    (same : allBytes rs ++ x = allBytes all) : rs <+: all := by
  induction rs generalizing all with
  | nil => exact List.nil_prefix
  | cons r rs ih =>
    have first : allBytes (r :: rs) = r.bytes ++ allBytes rs := rfl
    rw [first, List.append_assoc] at same
    cases all with
    | nil =>
      obtain ⟨front, split, -⟩ := (formed r List.mem_cons_self).isHead
      have empty := (List.append_eq_nil_iff.mp same).1
      rw [Request.bytes, split] at empty
      simp [headMark] at empty
    | cons o all =>
      have second : allBytes (o :: all) = o.bytes ++ allBytes all := rfl
      rw [second] at same
      obtain ⟨rfl, behind⟩ := (formed r List.mem_cons_self).unique (formed' o List.mem_cons_self) same
      rw [List.prefix_cons_inj]
      exact ih (fun r inside => formed r (List.mem_cons_of_mem _ inside)) (fun r inside =>
        formed' r (List.mem_cons_of_mem _ inside)) behind

end Harpoon.UnixBridge
