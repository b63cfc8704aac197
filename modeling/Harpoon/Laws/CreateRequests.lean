import Harpoon.Laws.RequestReading
import Harpoon.Wire.Utf8Errors

/-!
# Requests that create a container

A request that creates a container and that the daemon reads behind the bridge is one that the bridge has looked at, as
long as the client's are not in chunks and nothing before them makes the bridge stop looking; and its body is the
translation of one that has passed the check.
-/

namespace Harpoon.UnixBridge

open HostPaths (Agree Mac Members Regular SharedRoot Reason firstInvalidHostPath forwarded translateCreateBody)
open Wire (Bytes Free fromUtf8 utf8)

variable {File : Type} {json : JSONSerialization} {mac : Mac File} {roots : List SharedRoot}
variable {r : Request} {h : Head} {x y : Bytes} {s : String}

/-! ## Requests that create a container -/

/-- What the body carries. -/
def Request.Carries (r : Request) (content : Bytes) : Prop := if r.chunked then Chunks r.body content else content = r.body

/-- A POST to a path that ends in `containers/create`, with or without a query behind it. -/
def Creates (r : Request) : Prop :=
  ∃ target version fields, Lined r.head (utf8 "POST") target version fields ∧
    utf8 "containers/create" <:+ target.takeWhile (· ≠ 0x3F)

variable (json) in
/-- With an object as its content. -/
def CreatesFrom (r : Request) (body : Members) : Prop :=
  Creates r ∧ ∃ content, r.Carries content ∧ json.jsonObject content = some body

/-- A text in the bytes of a text. -/
theorem text_inside {t u : String} {c : Char} {cs : List Char} (ascii : c.toNat < 128) (is : u.toList = c :: cs)
    (whole : utf8 t = x ++ utf8 u ++ y) : ∃ v w, t = v ++ (u ++ w) := by
  have first : utf8 u = UInt8.ofNat c.toNat :: cs.flatMap String.utf8EncodeChar := by
    have low : c.val.toNat ≤ 127 := Nat.le_of_lt_succ ascii
    rw [Wire.utf8_eq, is, List.flatMap_cons, String.utf8EncodeChar, if_pos low]
    rfl
  have code : c.toNat = (UInt8.ofNat c.toNat).toNat := by rw [UInt8.toNat_ofNat', Nat.mod_eq_of_lt (by omega)]
  have split : utf8 t = x ++ UInt8.ofNat c.toNat :: (cs.flatMap String.utf8EncodeChar ++ y) := by
    rw [whole, first, List.append_assoc]
    rfl
  obtain ⟨v, w, front, behind, rfl⟩ := utf8_split code (by omega) split
  have rest : fromUtf8 (utf8 u ++ y) = some (String.singleton c ++ w) := by
    rw [Wire.fromUtf8_iff, first, Wire.utf8_append, Wire.utf8_singleton, behind]
    have low : c.val.toNat ≤ 127 := Nat.le_of_lt_succ ascii
    rw [String.utf8EncodeChar, if_pos low]
    rfl
  rw [Wire.fromUtf8_append] at rest
  obtain ⟨z, -, same⟩ := Option.map_eq_some_iff.mp rest
  exact ⟨v, z, by rw [← same]⟩

theorem addLines_request (ls : List String) (h : Head) :
    (ls.foldl Head.addLine h).method = h.method ∧ (ls.foldl Head.addLine h).path = h.path := by
  have one : ∀ (l : String) (h : Head), (h.addLine l).method = h.method ∧ (h.addLine l).path = h.path := by
    intro l h
    unfold Head.addLine
    dsimp only
    split <;> split <;> split <;> split <;> exact ⟨rfl, rfl⟩
  induction ls generalizing h with
  | nil => exact ⟨rfl, rfl⟩
  | cons l ls ih =>
    rw [List.foldl_cons, (ih _).1, (ih _).2]
    exact one l h

theorem ofText_request {line : String} {lines : List String} (scan : Head.ofText s = some h)
    (read : (Desktop.crlfLines s.toList).map String.ofList = line :: lines) :
    h.method = ((Wire.fields ' ' line).filter (· ≠ ""))[0]?.getD "" ∧
      h.path = ((Wire.fields ' ' line).filter (· ≠ ""))[1]?.getD "" := by
  unfold Head.ofText at scan
  rw [read] at scan
  dsimp only at scan
  split at scan
  · cases scan
  · have same := Option.some.inj scan
    split at same
    · rw [← same]
      exact addLines_request ..
    · rw [← same]
      exact addLines_request ..

/-- The bridge sees that it is one. -/
theorem Creates.seen (creates : Creates r) (text : fromUtf8 r.head = some s) (scan : Head.ofText s = some h) :
    h.method = "POST" ∧ contains h.path.toList "containers/create" = true := by
  obtain ⟨target, version, fields, lined, before, path⟩ := creates
  obtain ⟨l, ls, first, -, read⟩ := headFrom_lines lined.free lined.formed (lined.whole ▸ Wire.fromUtf8_iff.mp text)
  rw [List.append_assoc] at first
  obtain ⟨post, more, isPost, rest, rfl⟩ := utf8_split (c := ' ') rfl (by decide) first
  obtain rfl : post = "POST" := utf8_inj isPost
  obtain ⟨t, v, isTarget, -, rfl⟩ := utf8_split (c := ' ') (a := target) rfl (by decide) rest
  have visible : (0x20 : UInt8) ∉ target := fun inside => absurd (lined.visible _ (List.mem_append_left _ inside)) (by decide)
  have free : Free ' ' t := fun inside => visible (isTarget ▸ (Wire.ascii_utf8 rfl (by decide)).mpr inside)
  have parts : Wire.fields ' ' ("POST" ++ (String.singleton ' ' ++ (t ++ (String.singleton ' ' ++ v)))) =
      "POST" :: t :: Wire.fields ' ' v := by
    rw [Wire.fields_before (by decide), Wire.fields_before free]
  have bytes : utf8 t = before ++ utf8 "containers/create" ++ target.dropWhile (· ≠ 0x3F) := by
    rw [path, List.takeWhile_append_dropWhile, isTarget]
  obtain ⟨front, back, rfl⟩ := text_inside (u := "containers/create") (by decide) rfl bytes
  have some_ : front ++ ("containers/create" ++ back) ≠ "" := by
    intro empty
    have chars := congrArg String.toList empty
    simp at chars
  obtain ⟨method, path⟩ := ofText_request scan read
  have keeps : ∀ (p : String) (ps : List String), p ≠ "" → (p :: ps).filter (· ≠ "") = p :: ps.filter (· ≠ "") :=
    fun p ps some_ => List.filter_cons_of_pos (decide_eq_true some_)
  rw [parts, keeps _ _ (by decide), keeps _ _ some_] at method path
  refine ⟨method, ?_⟩
  have text : h.path.toList = front.toList ++ ("containers/create".toList ++ back.toList) := by
    rw [path]
    simp
  rw [text]
  exact Git.occurs_between _ _

/-! ## A translated request -/

instance {f : Field} {name : String} : Decidable (f.Named name) := inferInstanceAs (Decidable (_ = _))

def lengthField (n : Nat) : Field := ⟨utf8 "Content-Length", utf8 (" " ++ n.repr)⟩

/-- A field of a head with another length. -/
def Field.withLength (n : Nat) (f : Field) : Field := if f.Named "content-length" then lengthField n else f

theorem lengthField_text (n : Nat) : (lengthField n).text = utf8 s!"Content-Length: {n}" := by
  have whole : s!"Content-Length: {n}" = "Content-Length" ++ (":" ++ (" " ++ n.repr)) := by
    rw [← String.toList_inj]
    simp [toString]
  rw [whole, Wire.utf8_append, Wire.utf8_append]
  rfl

theorem repr_byte {n : Nat} {d : UInt8} {c : Char} (other : c.isDigit = false) (code : c.toNat = d.toNat) (ascii : d.toNat < 128) :
    d ∉ utf8 n.repr := fun inside => Wire.repr_free other ((Wire.ascii_utf8 code ascii).mp inside)

theorem lengthField_formed (n : Nat) : (lengthField n).Formed := by
  have name : utf8 "Content-Length" ≠ [] ∧ ∀ b ∈ utf8 "Content-Length", isToken b = true :=
    ⟨by decide, List.all_eq_true.mp (by decide)⟩
  refine ⟨name, fun b inside => ?_⟩
  have bytes : (lengthField n).value = 0x20 :: utf8 n.repr := Wire.utf8_append ..
  rw [bytes, List.mem_cons] at inside
  constructor
  · rintro rfl
    exact inside.elim (by decide) (repr_byte (c := '\r') (by decide) rfl (by decide))
  · rintro rfl
    exact inside.elim (by decide) (repr_byte (c := '\n') (by decide) rfl (by decide))

theorem lengthField_reads (n : Nat) : ∃ digits, (lengthField n).trimmed = utf8 (String.ofList digits) ∧ digits ≠ [] ∧
    Wire.readDigits 10 0 digits = some n := by
  have bytes : (lengthField n).value = 0x20 :: utf8 n.repr := Wire.utf8_append ..
  have solid : ∀ b ∈ utf8 n.repr, isOws b = false := by
    intro b inside
    refine Bool.eq_false_iff.mpr fun blank => ?_
    have either : b = 0x20 ∨ b = 0x09 := by simpa [isOws] using blank
    rcases either with rfl | rfl
    · exact repr_byte (c := ' ') (by decide) rfl (by decide) inside
    · exact repr_byte (c := '\t') (by decide) rfl (by decide) inside
  have kept : ∀ bs : Bytes, (∀ b ∈ bs, isOws b = false) → bs.dropWhile isOws = bs := by
    intro bs each
    cases bs with
    | nil => rfl
    | cons b bs => exact List.dropWhile_cons_of_neg (Bool.eq_false_iff.mp (each b List.mem_cons_self))
  refine ⟨n.repr.toList, ?_, ?_, ?_⟩
  · have back : ∀ b ∈ (utf8 n.repr).reverse, isOws b = false := fun b inside => solid b (List.mem_reverse.mp inside)
    rw [Field.trimmed, bytes, List.dropWhile_cons_of_pos (by decide), kept _ solid, kept _ back, List.reverse_reverse,
      String.ofList_toList]
  · simp
  · rw [Nat.toList_repr]
    exact Wire.readDigits_toDigits (by decide) (by decide)

/-- A line that gives a length is that of a field of the name. -/
theorem length_field {l l' : String} {ls : List String} {method rest : Bytes} {fields : List Field}
    (token : ∀ b ∈ method, isToken b = true) (first : utf8 l = method ++ 0x20 :: rest)
    (each : ls.map utf8 = fields.map Field.text) (formed : ∀ f ∈ fields, f.Formed) (mem : l' ∈ l :: (ls ++ ["", ""]))
    (is : isLength l' = true) : ∃ f ∈ fields, f.Named "content-length" ∧ ∃ n v, Told f l' n v := by
  rw [List.mem_cons, List.mem_append] at mem
  rcases mem with rfl | mem | mem
  · rw [method_other token first] at is
    cases is
  · have mem' : utf8 l' ∈ fields.map Field.text := each ▸ List.mem_map_of_mem mem
    obtain ⟨f, inside, same⟩ := List.mem_map.mp mem'
    obtain ⟨n, v, told⟩ := told same.symm
    exact ⟨f, inside, (named_iff "content-length" (formed f inside) told (by decide)).mp is, n, v, told⟩
  · have empty : l' = "" := by simpa using mem
    rw [empty] at is
    exact absurd is (by decide)

theorem newHeader_lines (scan : Head.ofText s = some h) (given : h.contentLength ≠ none) (n : Nat) :
    utf8 (newHeader h n) = linesOf (h.lines.map fun l => if isLength l then s!"Content-Length: {n}" else l) := by
  have some_ : h.lines.any isLength = true := by
    cases any : h.lines.any isLength with
    | true => rfl
    | false =>
      have none_ := ofText_length scan (n := none) fun l inside is => absurd is (List.any_eq_false.mp any l inside)
      rw [any] at none_
      exact absurd none_ given
  rw [newHeader, some_]
  rfl

theorem relabel {n : Nat} {ls : List String} {F : List Field} (formed : ∀ f ∈ F, f.Formed)
    (same : ls.map utf8 = F.map Field.text) :
    (ls.map fun l => if isLength l then s!"Content-Length: {n}" else l).map utf8 = (F.map (Field.withLength n)).map Field.text := by
  induction F generalizing ls with
  | nil =>
    rw [List.map_eq_nil_iff.mp same]
    rfl
  | cons f F ih =>
    cases ls with
    | nil => cases same
    | cons l ls =>
      obtain ⟨first, rest⟩ := List.cons.inj same
      rw [List.map_cons, List.map_cons, List.map_cons, List.map_cons,
        ih (fun f inside => formed f (List.mem_cons_of_mem _ inside)) rest]
      obtain ⟨_, _, told⟩ := told first
      have named : isLength l = true ↔ f.Named "content-length" :=
        named_iff "content-length" (formed f List.mem_cons_self) told (by decide)
      have head : utf8 (if isLength l then s!"Content-Length: {n}" else l) = (f.withLength n).text := by
        rw [Field.withLength]
        by_cases is : isLength l = true
        · rw [if_pos is, if_pos (named.mp is), lengthField_text]
        · rw [if_neg is, if_neg fun other => is (named.mpr other), first]
      rw [head]

theorem linesOf_headFrom {l : String} {ls : List String} {F : List Field} (same : ls.map utf8 = F.map Field.text) :
    linesOf (l :: (ls ++ ["", ""])) = headFrom (utf8 l) F := by
  have apart : ∀ (l l' : String) (ls : List String), linesOf (l :: l' :: ls) = utf8 l ++ crlf ++ linesOf (l' :: ls) := by
    intro l l' ls
    have split : "\r\n".intercalate (l :: l' :: ls) = l ++ ("\r\n" ++ "\r\n".intercalate (l' :: ls)) := by
      rw [← String.toList_inj, String.toList_append, String.toList_append, String.toList_intercalate, String.toList_intercalate,
        List.map_cons, List.map_cons, List.intercalate_cons_cons, List.append_assoc]
    rw [linesOf, split, Wire.utf8_append, Wire.utf8_append, List.append_assoc]
    rfl
  have last : ∀ l : String, linesOf [l] = utf8 l := by
    intro l
    have alone : "\r\n".intercalate [l] = l := by
      rw [← String.toList_inj, String.toList_intercalate, List.map_singleton, List.intercalate_singleton]
    rw [linesOf, alone]
  induction F generalizing l ls with
  | nil =>
    obtain rfl := List.map_eq_nil_iff.mp same
    rw [List.nil_append, apart, apart, last, headFrom_nil]
    rfl
  | cons f F ih =>
    cases ls with
    | nil => cases same
    | cons l' ls =>
      obtain ⟨first, rest⟩ := List.cons.inj same
      rw [List.cons_append, apart, ih rest, headFrom_cons, first]

/-- A translated request is well formed, with the same request line. -/
theorem translated_formed {method target version : Bytes} {F : List Field} (lined : Lined r.head method target version F)
    (framed : Framed F r) (text : fromUtf8 r.head = some s) (scan : Head.ofText s = some h) (whole : r.chunked = false)
    (given : h.contentLength ≠ none) (body : Bytes) :
    Lined (utf8 (newHeader h body.length)) method target version (F.map (Field.withLength body.length)) ∧
      Framed (F.map (Field.withLength body.length)) ⟨utf8 (newHeader h body.length), body, false⟩ := by
  have named : ∀ f ∈ F.map (Field.withLength body.length),
      f = lengthField body.length ∨ f ∈ F ∧ ¬ f.Named "content-length" := by
    intro f inside
    obtain ⟨g, mem, rfl⟩ := List.mem_map.mp inside
    rw [Field.withLength]
    split
    next => exact .inl rfl
    next other => exact .inr ⟨mem, other⟩
  obtain ⟨l, ls, first, rest, read⟩ := headFrom_lines lined.free lined.formed (lined.whole ▸ Wire.fromUtf8_iff.mp text)
  refine ⟨⟨?_, lined.method, lined.visible, ?_⟩, ?_⟩
  · have line : utf8 l = method ++ 0x20 :: (target ++ 0x20 :: version) := by rw [first, List.append_assoc]; rfl
    have other : isLength l = false := method_other lined.method.2 line
    have blank : isLength "" = false := by decide
    rw [newHeader_lines scan given, ofText_lines scan, read, List.map_cons, List.map_append, List.map_cons, List.map_cons,
      List.map_nil, other, blank, ← first]
    exact linesOf_headFrom (relabel lined.formed rest)
  · intro f inside
    rcases named f inside with rfl | ⟨mem, -⟩
    · exact lengthField_formed _
    · exact lined.formed f mem
  · refine ⟨nofun, fun f inside is => ?_, fun f inside is => ?_, fun _ none_ => ?_⟩
    · rcases named f inside with rfl | ⟨mem, -⟩
      · have other : ¬ (utf8 "Content-Length").map Field.lower = utf8 "transfer-encoding" := by decide
        exact absurd is other
      · exact absurd ((framed.coding f mem is).1.symm.trans whole) nofun
    · rcases named f inside with rfl | ⟨-, other⟩
      · exact lengthField_reads _
      · exact absurd is other
    · exfalso
      refine given ?_
      have line : utf8 l = method ++ 0x20 :: (target ++ 0x20 :: version) := by rw [first, List.append_assoc]; rfl
      have lines : h.lines = l :: (ls ++ ["", ""]) := (ofText_lines scan).trans read
      have quiet : ∀ l' ∈ h.lines, ¬ isLength l' = true := by
        intro l' mem is
        obtain ⟨f, inside, named, -⟩ := length_field lined.method.2 line rest lined.formed (lines ▸ mem) is
        have length : f.withLength body.length = lengthField body.length := if_pos named
        have self : (utf8 "Content-Length").map Field.lower = utf8 "content-length" := by decide
        have mem' : lengthField body.length ∈ F.map (Field.withLength body.length) := List.mem_map.mpr ⟨f, inside, length⟩
        exact none_ _ mem' self
      have length := ofText_length scan (n := none) fun l inside is => absurd is (quiet l inside)
      rw [length]
      split <;> rfl

/-! ## What the daemon reads -/

variable (json mac roots) in
/-- What the body asks for passes the check, and `sent` is its translation. -/
def Passes (body : Bytes) (sent : Members) : Prop :=
  ∃ asked, json.jsonObject body = some asked ∧ firstInvalidHostPath mac roots asked = none ∧ Agree mac roots asked sent

variable (json mac roots) in
/-- Of each request that creates a container and that the daemon reads, the client has sent a body that passes the
check, and the daemon's is its translation. -/
def Guarded (arrived daemon : Bytes) : Prop :=
  ∀ rs rest, daemon = allBytes rs ++ rest → (∀ r ∈ rs, WellFormed r) → ∀ r ∈ rs, ∀ sent, CreatesFrom json r sent →
    ∃ body, body <:+: arrived ∧ Passes json mac roots body sent

variable (json mac roots) in
/-- What JSONSerialization writes it reads again, and no bytes are no object. -/
structure JSONSerialization.Lawful : Prop where
  empty : json.jsonObject [] = none
  written : ∀ bytes asked body, json.jsonObject bytes = some asked → translateCreateBody mac roots asked = some body →
    json.jsonObject (json.data body) = some body

variable (json mac roots) in
/-- The requests of a client whose requests for containers are all looked at, and are translated if they pass. -/
structure Watched (most : Nat) (reqs : List Request) : Prop where
  formed : ∀ r ∈ reqs, WellFormed r ∧ Clear r
  plain : ∀ r ∈ reqs, ∀ asked, CreatesFrom json r asked → ¬ LooksChunked r
  regular : ∀ r ∈ reqs, ∀ asked, CreatesFrom json r asked → firstInvalidHostPath mac roots asked = none →
    Regular mac roots asked
  seen : ∀ before r after, reqs = before ++ r :: after → (∃ c ∈ r :: after, ∃ asked, CreatesFrom json c asked) →
    ¬ Blind most r

theorem agree_forwarded {asked : Members} (passes : firstInvalidHostPath mac roots asked = none)
    (regular : Regular mac roots asked) : Agree mac roots asked (forwarded mac roots asked) := by
  obtain ⟨ofBinds, ofMounts⟩ := HostPaths.firstInvalid_none.mp passes
  exact HostPaths.agree_each.mpr ⟨fun b inside => (HostPaths.entry_iff (ofBinds b inside)).mpr (regular.binds b inside),
    fun m inside => (HostPaths.mount_iff (ofMounts m inside)).mpr (regular.mounts m inside)⟩

/-- What a request becomes that is forwarded. -/
theorem Dealt.forwards {out : Bytes} (lawful : json.Lawful mac roots) (formed : WellFormed r)
    (dealt : Dealt json mac roots r (.ok out)) (plain : ∀ asked, CreatesFrom json r asked → ¬ LooksChunked r)
    (regular : ∀ asked, CreatesFrom json r asked → firstInvalidHostPath mac roots asked = none → Regular mac roots asked) :
    ∃ o, o.bytes = out ∧ WellFormed o ∧ ∀ sent, CreatesFrom json o sent → Passes json mac roots r.body sent := by
  obtain ⟨s, h, text, scan, scanned, result⟩ := dealt
  have looked : ∀ asked, CreatesFrom json r asked → h.isChunked = false ∧ json.jsonObject r.body = some asked := by
    rintro asked ⟨creates, content, carries, object⟩
    have unchunked : h.isChunked = false :=
      Bool.eq_false_iff.mpr fun is => plain asked ⟨creates, content, carries, object⟩ (scanned.looks.mp is)
    rw [Request.Carries, scanned.whole unchunked, if_neg Bool.false_ne_true] at carries
    exact ⟨unchunked, carries ▸ object⟩
  unfold outData at result
  split at result
  next test =>
    simp only [Bool.and_eq_true, decide_eq_true_eq, Bool.not_eq_true'] at test
    obtain ⟨⟨⟨post, path⟩, some_⟩, unchunked⟩ := test
    have whole := scanned.whole unchunked
    split at result
    next => cases result
    next passes =>
      split at result
      next body translated =>
        cases result
        obtain ⟨asked, object, translates⟩ := Option.bind_eq_some_iff.mp translated
        rw [object] at passes
        have given : h.contentLength ≠ none := by
          intro none_
          have empty := (scanned.length unchunked).1
          rw [none_] at empty
          have : (0 : Int) = r.body.length := empty
          exact some_ (List.eq_nil_of_length_eq_zero (by omega))
        obtain ⟨method, target, version, fields, lined, framed⟩ := wellFormed_iff.mp formed
        obtain ⟨lined', framed'⟩ := translated_formed lined framed text scan whole given (json.data body)
        refine ⟨⟨utf8 (newHeader h (json.data body).length), json.data body, false⟩, rfl, ?_, ?_⟩
        · exact wellFormed_iff.mpr ⟨method, target, version, _, lined', framed'⟩
        · rintro sent ⟨⟨t, v, F, line, path⟩, content, rfl, object'⟩
          have same : sent = body := Option.some.inj (object'.symm.trans (lawful.written _ _ _ object translates))
          have sentence : forwarded mac roots asked = body := by rw [forwarded, translates, Option.getD_some]
          have creates : CreatesFrom json r asked := by
            refine ⟨⟨t, v, fields, ?_, path⟩, r.body, ?_, object⟩
            · exact ⟨lined.whole.trans (congrArg (headFrom · fields) (lined'.unique line).1), line.method, line.visible,
                lined.formed⟩
            · rw [Request.Carries, whole]
              rfl
          exact ⟨asked, object, passes, same ▸ sentence ▸ agree_forwarded passes (regular asked creates passes)⟩
      next untouched =>
        cases result
        refine ⟨r, rfl, formed, fun sent creates => ?_⟩
        obtain ⟨-, object⟩ := looked sent creates
        rw [object] at passes untouched
        have same : forwarded mac roots sent = sent := by
          have untouched : translateCreateBody mac roots sent = none := untouched
          rw [forwarded, untouched, Option.getD_none]
        have agree := agree_forwarded passes (regular sent creates passes)
        rw [same] at agree
        exact ⟨sent, object, passes, agree⟩
  next test =>
    cases result
    refine ⟨r, rfl, formed, fun sent creates => ?_⟩
    exfalso
    obtain ⟨unchunked, object⟩ := looked sent creates
    obtain ⟨post, path⟩ := creates.1.seen text scan
    refine test ?_
    have some_ : r.body ≠ [] := by
      intro empty
      rw [empty, lawful.empty] at object
      cases object
    simp [post, path, some_, unchunked]

theorem forwards_all {done : List Request} {results : List (Except (String × Reason) Bytes)} (lawful : json.Lawful mac roots)
    (each : List.Forall₂ (Dealt json mac roots) done results) (formed : ∀ r ∈ done, WellFormed r)
    (plain : ∀ r ∈ done, ∀ asked, CreatesFrom json r asked → ¬ LooksChunked r)
    (regular : ∀ r ∈ done, ∀ asked, CreatesFrom json r asked → firstInvalidHostPath mac roots asked = none →
      Regular mac roots asked) :
    ∃ outs, allBytes outs = okays results ∧ (∀ o ∈ outs, WellFormed o) ∧
      ∀ o ∈ outs, ∀ sent, CreatesFrom json o sent → ∃ r ∈ done, Passes json mac roots r.body sent := by
  induction each with
  | nil => exact ⟨[], rfl, nofun, nofun⟩
  | @cons r result done results dealt each ih =>
    obtain ⟨outs, bytes, formed', sound⟩ := ih (fun r inside => formed r (List.mem_cons_of_mem _ inside))
      (fun r inside => plain r (List.mem_cons_of_mem _ inside)) (fun r inside => regular r (List.mem_cons_of_mem _ inside))
    have later : ∀ o ∈ outs, ∀ sent, CreatesFrom json o sent → ∃ q ∈ r :: done, Passes json mac roots q.body sent := by
      intro o inside sent creates
      obtain ⟨q, mem, rest⟩ := sound o inside sent creates
      exact ⟨q, List.mem_cons_of_mem _ mem, rest⟩
    cases result with
    | error why => exact ⟨outs, bytes, formed', later⟩
    | ok out =>
      obtain ⟨o, is, well, first⟩ := dealt.forwards lawful (formed r List.mem_cons_self) (plain r List.mem_cons_self)
        (regular r List.mem_cons_self)
      refine ⟨o :: outs, ?_, List.forall_mem_cons.mpr ⟨well, formed'⟩,
        List.forall_mem_cons.mpr ⟨fun sent creates => ?_, later⟩⟩
      · have split : allBytes (o :: outs) = o.bytes ++ allBytes outs := rfl
        rw [split, is, bytes]
        rfl
      · exact ⟨r, List.mem_cons_self, first sent creates⟩

theorem body_inside {done : List Request} (mem : r ∈ done) : r.body <:+: allBytes done := by
  obtain ⟨front, back, rfl⟩ := List.append_of_mem mem
  refine ⟨allBytes front ++ r.head, allBytes back, ?_⟩
  simp only [allBytes, List.flatMap_append, List.flatMap_cons, Request.bytes, List.append_assoc]

def bound (source : String) : Members := [("HostConfig", .obj [("Binds", .arr [.str source])])]

def createHead (framing : String) : Bytes := utf8 ("POST /containers/create HTTP/1.1\r\n" ++ framing ++ "\r\n\r\n")

theorem createHead_lined (name value framing : String)
    (is : createHead framing =
      headFrom (utf8 "POST" ++ 0x20 :: utf8 "/containers/create" ++ 0x20 :: utf8 "HTTP/1.1") [⟨utf8 name, utf8 value⟩])
    (formed : Field.Formed ⟨utf8 name, utf8 value⟩) :
    Lined (createHead framing) (utf8 "POST") (utf8 "/containers/create") (utf8 "HTTP/1.1") [⟨utf8 name, utf8 value⟩] := by
  refine ⟨is, ⟨by decide, List.all_eq_true.mp (by decide)⟩, List.all_eq_true.mp (by decide), fun f inside => ?_⟩
  rw [List.mem_singleton.mp inside]
  exact formed

theorem creates_path : utf8 "containers/create" <:+ (utf8 "/containers/create").takeWhile (· ≠ 0x3F) :=
  ⟨utf8 "/", by decide⟩

/-- The bind of a user's directory, as it is asked for and as the daemon gets it. -/
def userText : String := "\x7b\"HostConfig\":\x7b\"Binds\":[\"/Users/u:/d\"]\x7d\x7d"

def guestText : String := "\x7b\"HostConfig\":\x7b\"Binds\":[\"\\/mnt\\/harpoon-host\\/Users\\/u:\\/d\"]\x7d\x7d"

def guestBody : Members := forwarded HostPaths.plain HostPaths.sharedRoots (bound "/Users/u:/d")

def userTexts : JSONSerialization where
  jsonObject bytes :=
    if bytes = utf8 userText then some (bound "/Users/u:/d")
    else if bytes = utf8 guestText then some guestBody
    else none
  data _ := utf8 guestText

def userCreate : Request := ⟨createHead "Content-Length: 40", utf8 userText, false⟩

theorem userTexts_lawful : userTexts.Lawful HostPaths.plain HostPaths.sharedRoots := by
  refine ⟨by rfl, fun bytes asked body object translates => ?_⟩
  have known : asked = bound "/Users/u:/d" ∨ asked = guestBody := by
    unfold userTexts at object
    dsimp only at object
    split at object
    · exact .inl (Option.some.inj object).symm
    · split at object
      · exact .inr (Option.some.inj object).symm
      · cases object
  rcases known with rfl | rfl
  · have same : guestBody = body := by rw [guestBody, forwarded, translates, Option.getD_some]
    rw [← same]
    rfl
  · have none_ : (translateCreateBody HostPaths.plain HostPaths.sharedRoots guestBody).isNone = true := by decide
    rw [translates] at none_
    cases none_

theorem userCreate_lined : Lined userCreate.head (utf8 "POST") (utf8 "/containers/create") (utf8 "HTTP/1.1")
    [⟨utf8 "Content-Length", utf8 " 40"⟩] :=
  createHead_lined "Content-Length" " 40" _ (by decide) ⟨⟨by decide, List.all_eq_true.mp (by decide)⟩, fun b inside =>
    of_decide_eq_true (List.all_eq_true.mp (by decide : (utf8 " 40").all (fun b => b ≠ 0x0D ∧ b ≠ 0x0A) = true) b inside)⟩

theorem userCreate_formed : WellFormed userCreate := by
  refine wellFormed_iff.mpr ⟨_, _, _, _, userCreate_lined, ?_⟩
  have named : (utf8 "Content-Length").map Field.lower = utf8 "content-length" := by decide
  have other : ¬ (utf8 "Content-Length").map Field.lower = utf8 "transfer-encoding" := by decide
  refine ⟨nofun, fun f inside is => ?_, fun f inside _ => ?_, fun _ none_ => ?_⟩
  · rw [List.mem_singleton.mp inside] at is
    exact absurd is other
  · rw [List.mem_singleton.mp inside]
    exact ⟨['4', '0'], by decide, by decide, by decide⟩
  · exact absurd named (none_ _ List.mem_cons_self)

theorem userCreate_plain : ¬ LooksChunked userCreate := by
  rintro ⟨s, text, l, inside, is⟩
  cases (Wire.fromUtf8_utf8 _).symm.trans text
  have none_ : ((Desktop.crlfLines ("POST /containers/create HTTP/1.1\r\n" ++ "Content-Length: 40" ++
      "\r\n\r\n").toList).map String.ofList).any isCoding = false := by decide
  exact List.any_eq_false.mp none_ l inside is

theorem userCreate_watched : Watched userTexts HostPaths.plain HostPaths.sharedRoots 8192 [userCreate] := by
  refine ⟨fun r inside => ?_, fun r inside asked _ => ?_, fun r inside asked creates _ => ?_,
    fun before r after whole _ blind => ?_⟩
  · rw [List.mem_singleton.mp inside]
    exact ⟨userCreate_formed, fun looks => absurd looks userCreate_plain, fun looks => absurd looks userCreate_plain,
      fun _ => by decide⟩
  · rw [List.mem_singleton.mp inside]
    exact userCreate_plain
  · rw [List.mem_singleton.mp inside] at creates
    obtain ⟨-, content, rfl, object⟩ := creates
    have known : userTexts.jsonObject userCreate.body = some (bound "/Users/u:/d") := rfl
    cases known.symm.trans object
    refine ⟨fun b _ src t _ _ => ⟨fun r rest _ _ => .inr rfl, fun r longest => ?_⟩, fun m inside => ?_⟩
    · have frees : ∀ r ∈ HostPaths.sharedRoots, Free ':' r.guestPath := by decide
      exact frees r longest.mem
    · have none_ : HostPaths.allMounts (bound "/Users/u:/d") = [] := rfl
      rw [none_] at inside
      cases inside
  · have is : r = userCreate := List.mem_singleton.mp (whole ▸ List.mem_append_right before List.mem_cons_self)
    subst is
    cases blind with
    | raw none_ => cases (Wire.fromUtf8_utf8 _).symm.trans none_
    | upgrade s h text scan up =>
      cases (Wire.fromUtf8_utf8 _).symm.trans text
      have quiet : (Head.ofText ("POST /containers/create HTTP/1.1\r\n" ++ "Content-Length: 40" ++ "\r\n\r\n")).all
          (fun h => !h.isUpgrade) = true := by decide
      rw [scan, Option.all_some, up] at quiet
      cases quiet
    | chunks looks => exact userCreate_plain looks
    | long most => exact absurd most (by decide)

end Harpoon.UnixBridge
