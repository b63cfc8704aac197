import Harpoon.Laws.HostPaths
import Harpoon.Laws.RequestFields
import Mathlib.Data.List.Forall2

/-!
# What goes over the bridge

A client sends well-formed requests, one after the other, and the bridge reads them in pieces. If it finds the end of
each body where it is, what the daemon is sent are these requests in their order, except those that create a container,
which are translated or answered in their place. The first that has not gone on is not all there. Over any stream the
loop ends exactly as long as no head that it looks at has an impossible length.
-/

namespace Harpoon.UnixBridge

open Desktop (IsHead headMark)
open HostPaths (Mac Members SharedRoot Reason firstInvalidHostPath translateCreateBody)
open Wire (Bytes fromUtf8 positionOf utf8)

variable {File : Type} {json : JSONSerialization} {mac : Mac File} {roots : List SharedRoot}
variable {r : Request} {h : Head} {buf more : Bytes} {s : String} {most : Nat}

/-! ## What the loop does next -/

/-- A request at which the bridge stops looking: all goes on as it is from there on. Of one read there are at most so
many bytes. -/
inductive Blind (most : Nat) (r : Request) : Prop where
  | raw : fromUtf8 r.head = none → Blind most r
  | upgrade (s : String) (h : Head) : fromUtf8 r.head = some s → Head.ofText s = some h → h.isUpgrade = true → Blind most r
  | chunks : LooksChunked r → 1024 * 1024 < r.bytes.length → Blind most r
  | long : 4 * 1024 * 1024 < r.bytes.length + most → Blind most r

theorem positionOf_short {mark a : Bytes} {i : Nat} (some_ : positionOf mark a = some i) (ends : i + mark.length = a.length)
    (begins : buf <+: a ++ more) (short : buf.length < a.length) : positionOf mark buf = none := by
  obtain ⟨rest, whole⟩ := begins
  cases found : positionOf mark buf with
  | none => rfl
  | some j =>
    have bound := Wire.positionOf_bound found
    have same := Wire.positionOf_append (b := rest) found
    rw [whole, Wire.positionOf_append some_] at same
    cases same
    omega

theorem next_raw (is : IsHead r.head) (text : fromUtf8 r.head = none) (x : Bytes) : next (r.head ++ x) = .raw := by
  obtain ⟨front, same, first⟩ := is
  have found : positionOf headerMark (r.head ++ x) = some front.length := Wire.positionOf_append first
  have length : front.length + headerMark.length = r.head.length := by rw [same, List.length_append]; rfl
  rw [next, found]
  dsimp only
  rw [length, List.take_left, text]

theorem next_head (is : IsHead r.head) (text : fromUtf8 r.head = some s) (scan : Head.ofText s = some h) (x : Bytes) :
    next (r.head ++ x) = frame h r.head.length (r.head ++ x) := by
  obtain ⟨front, same, first⟩ := is
  have found : positionOf headerMark (r.head ++ x) = some front.length := Wire.positionOf_append first
  have length : front.length + headerMark.length = r.head.length := by rw [same, List.length_append]; rfl
  rw [next, found]
  dsimp only
  rw [length, List.take_left, text]
  dsimp only
  rw [scan]

/-- Behind the head there are bytes of the body, and not all. -/
theorem frame_short (scanned : Scanned r h) {x : Bytes} (begins : x <+: r.body) (short : x.length < r.body.length) :
    frame h r.head.length (r.head ++ x) = .wait ∨
      frame h r.head.length (r.head ++ x) = .raw ∧ LooksChunked r ∧ 1024 * 1024 < r.bytes.length := by
  cases chunked : h.isChunked with
  | true =>
    obtain ⟨i, found, ends⟩ := scanned.ends chunked
    have none : positionOf term ((r.head ++ x).drop r.head.length) = none := by
      rw [List.drop_left]
      exact positionOf_short found ends (begins.trans (List.prefix_append r.body [])) short
    have other : positionOf term2 (r.head ++ x) = Option.none := by
      have inside : x <+: r.body.dropLast := by
        rw [List.dropLast_eq_take]
        exact List.prefix_take_iff.mpr ⟨begins, by omega⟩
      obtain ⟨rest, whole⟩ := (List.prefix_append_right_inj r.head).mpr inside
      exact Wire.positionOf_part (whole ▸ scanned.other chunked)
    rw [frame, bodyLen, if_pos chunked, none, other]
    dsimp only
    by_cases long : (r.head ++ x).length > 1024 * 1024
    · rw [if_pos long]
      rw [List.length_append] at long
      refine .inr ⟨rfl, scanned.looks.mp chunked, ?_⟩
      rw [Request.bytes, List.length_append]
      omega
    · rw [if_neg long]
      exact .inl rfl
  | false =>
    obtain ⟨length, fits⟩ := scanned.length chunked
    cases given : h.contentLength with
    | none =>
      rw [given] at length
      have : (0 : Int) = r.body.length := length
      omega
    | some cl =>
      rw [given] at length
      have same : cl = r.body.length := length
      have needs : ((r.head ++ x).length : Int) < r.head.length + cl := by rw [same, List.length_append]; omega
      have room : ¬ (r.head.length : Int) + cl > maxInt := by rw [same]; omega
      left
      rw [frame, bodyLen, chunked, given]
      dsimp only
      rw [if_neg Bool.false_ne_true, if_neg room, if_pos needs]

/-- All of the request is there. -/
theorem frame_whole (scanned : Scanned r h) (more : Bytes) :
    frame h r.head.length (r.bytes ++ more) = .request h r.head.length r.bytes.length := by
  have bytes : bodyLen h r.head.length (r.bytes ++ more) = .bytes r.body.length := by
    rw [bodyLen, Request.bytes]
    cases chunked : h.isChunked with
    | true =>
      obtain ⟨i, found, ends⟩ := scanned.ends chunked
      rw [if_pos rfl, List.append_assoc, List.drop_left, Wire.positionOf_append found]
      dsimp only
      rw [← ends]
      rfl
    | false =>
      obtain ⟨length, fits⟩ := scanned.length chunked
      rw [if_neg Bool.false_ne_true]
      cases given : h.contentLength with
      | none =>
        rw [given] at length
        exact congrArg BodyLen.bytes length
      | some cl =>
        rw [given] at length
        have same : cl = r.body.length := length
        have enough : ¬ ((r.head ++ r.body ++ more).length : Int) < r.head.length + cl := by
          rw [same, List.length_append, List.length_append]
          omega
        have room : ¬ (r.head.length : Int) + cl > maxInt := by rw [same]; omega
        dsimp only
        rw [if_neg room, if_neg enough, same]
  have length : r.bytes.length = r.head.length + r.body.length := List.length_append
  rw [frame, bytes]
  dsimp only
  rw [if_neg (by rw [List.length_append, length]; omega), if_neg (by omega), length]
  exact congrArg (Next.request h r.head.length) (by omega)

/-- What the loop does with the first request, or with what there is of it. -/
theorem next_short (good : Good r) (begins : buf <+: r.bytes) (short : buf.length < r.bytes.length) :
    next buf = .wait ∨ next buf = .raw ∧ Blind most r := by
  by_cases within : buf.length < r.head.length
  · obtain ⟨front, same, first⟩ := good.isHead
    have first : positionOf headerMark r.head = some front.length := first
    have ends : front.length + headerMark.length = r.head.length := by rw [same, List.length_append]; rfl
    rw [next, positionOf_short first ends begins within]
    exact .inl rfl
  · obtain ⟨x, rfl⟩ : r.head <+: buf := by
      refine (List.prefix_or_prefix_of_prefix begins (List.prefix_append r.head r.body)).elim (fun shorter => ?_) id
      have same : buf = r.head := shorter.eq_of_length (by have := shorter.length_le; omega)
      exact same ▸ List.prefix_rfl
    have inside : x <+: r.body := (List.prefix_append_right_inj r.head).mp begins
    have shorter : x.length < r.body.length := by
      rw [Request.bytes, List.length_append, List.length_append] at short
      omega
    cases text : fromUtf8 r.head with
    | none => exact .inr ⟨next_raw good.isHead text x, .raw text⟩
    | some s =>
      obtain ⟨h, scan⟩ := Option.ne_none_iff_exists'.mp (good.starts s text)
      rw [next_head good.isHead text scan]
      rcases frame_short (good.scanned s h text scan) inside shorter with waits | ⟨raw, looks, long⟩
      · exact .inl waits
      · exact .inr ⟨raw, .chunks looks long⟩

theorem next_whole (good : Good r) (more : Bytes) : next (r.bytes ++ more) = .raw ∧ Blind most r ∨
    ∃ s h, fromUtf8 r.head = some s ∧ Head.ofText s = some h ∧
      next (r.bytes ++ more) = .request h r.head.length r.bytes.length := by
  have behind : r.bytes ++ more = r.head ++ (r.body ++ more) := List.append_assoc ..
  cases text : fromUtf8 r.head with
  | none => exact .inl ⟨behind ▸ next_raw good.isHead text _, .raw text⟩
  | some s =>
    obtain ⟨h, scan⟩ := Option.ne_none_iff_exists'.mp (good.starts s text)
    refine .inr ⟨s, h, rfl, scan, ?_⟩
    rw [behind, next_head good.isHead text scan, ← behind]
    exact frame_whole (good.scanned s h text scan) more

/-! ## What goes on -/

def linesOf (lines : List String) : Bytes := utf8 ("\r\n".intercalate lines)

/-- A request that creates a container, with a body of a given length. -/
def IsCreate (r : Request) : Prop :=
  r.chunked = false ∧ ∃ s h, fromUtf8 r.head = some s ∧ Head.ofText s = some h ∧ h.method = "POST" ∧
    contains h.path.toList "containers/create" = true

/-- The head with the lines that give the length of the body replaced. -/
def WithLength (n : Nat) (head head' : Bytes) : Prop :=
  ∃ lines, head = linesOf lines ∧ head' = linesOf (lines.map fun l => if isLength l then s!"Content-Length: {n}" else l)

/-- What becomes of a request: it goes on as it is, or it creates a container, and is answered or translated. -/
inductive Sent (json : JSONSerialization) (mac : Mac File) (roots : List SharedRoot) (r : Request) :
    Except (String × Reason) Bytes → Prop where
  | verbatim : Sent json mac roots r (.ok r.bytes)
  | answered (why : String × Reason) : IsCreate r → (json.jsonObject r.body).bind (firstInvalidHostPath mac roots) = some why →
      Sent json mac roots r (.error why)
  | translated (head : Bytes) (body : Members) : IsCreate r →
      (json.jsonObject r.body).bind (translateCreateBody mac roots) = some body →
      WithLength (json.data body).length r.head head → Sent json mac roots r (.ok (head ++ json.data body))

theorem linesOf_head (text : fromUtf8 r.head = some s) (scan : Head.ofText s = some h) : r.head = linesOf h.lines := by
  have same : "\r\n".intercalate h.lines = s := by
    rw [ofText_lines scan, ← String.toList_inj, String.toList_intercalate, List.map_map]
    refine Eq.trans (congrArg _ ?_) (crlfLines_joined s.toList)
    exact (List.map_congr_left fun l _ => String.toList_ofList).trans (List.map_id' _)
  rw [linesOf, same]
  exact Wire.fromUtf8_iff.mp text

theorem newHeader_eq (text : fromUtf8 r.head = some s) (scan : Head.ofText s = some h) (given : h.contentLength ≠ none)
    (n : Nat) :
    WithLength n r.head (utf8 (newHeader h n)) := by
  have some_ : h.lines.any isLength = true := by
    cases any : h.lines.any isLength with
    | true => rfl
    | false =>
      have none_ := ofText_length scan (n := none) fun l inside is => absurd is (List.any_eq_false.mp any l inside)
      rw [any] at none_
      exact absurd none_ given
  refine ⟨h.lines, linesOf_head text scan, ?_⟩
  rw [newHeader, some_]
  rfl

variable (json mac roots) in
/-- What the bridge makes of a request by what it reads from the head. -/
def Dealt (r : Request) (result : Except (String × Reason) Bytes) : Prop :=
  ∃ s h, fromUtf8 r.head = some s ∧ Head.ofText s = some h ∧ Scanned r h ∧
    result = outData json mac roots h r.bytes r.body

theorem Dealt.sent {result : Except (String × Reason) Bytes} (dealt : Dealt json mac roots r result) :
    Sent json mac roots r result := by
  obtain ⟨s, h, text, scan, scanned, rfl⟩ := dealt
  unfold outData
  split
  next creates =>
    simp only [Bool.and_eq_true, decide_eq_true_eq, Bool.not_eq_true'] at creates
    obtain ⟨⟨⟨post, path⟩, some_⟩, whole⟩ := creates
    have create : IsCreate r := ⟨scanned.whole whole, s, h, text, scan, post, path⟩
    have given : h.contentLength ≠ none := by
      intro none_
      have empty := (scanned.length whole).1
      rw [none_] at empty
      have : (0 : Int) = r.body.length := empty
      exact some_ (List.eq_nil_of_length_eq_zero (by omega))
    split
    next why refused => exact .answered why create refused
    next =>
      split
      next body translated => exact .translated _ body create translated (newHeader_eq text scan given _)
      next => exact .verbatim
  next => exact .verbatim

/-! ## The loop -/

def okays (results : List (Except (String × Reason) Bytes)) : Bytes := results.flatMap fun r => r.toOption.getD []

def errors (results : List (Except (String × Reason) Bytes)) : List (String × Reason) :=
  results.filterMap fun | .error why => some why | .ok _ => none

theorem errors_cons (result : Except (String × Reason) Bytes) (results : List (Except (String × Reason) Bytes)) :
    errors (result :: results) = errors [result] ++ errors results := by
  cases result <;> rfl

theorem okays_cons (result : Except (String × Reason) Bytes) (results : List (Except (String × Reason) Bytes)) :
    okays (result :: results) = okays [result] ++ okays results := by
  rw [okays, okays, okays, ← List.flatMap_append]
  rfl

def allBytes (rs : List Request) : Bytes := rs.flatMap Request.bytes

variable (json mac roots most) in
/-- How far the loop goes with the requests: those that are there are dealt with in order, and the first of the others
is not all there; or all goes on as it is from some request on. -/
def Gone (left : List Request) (b b' : Bridge) : Prop :=
  ∃ done more results, left = done ++ more ∧ List.Forall₂ (Dealt json mac roots) done results ∧
    (allBytes done).length ≤ b.clientBuf.length ∧ b'.client = b.client ++ errors results ∧
    (b'.hijacked = true ∧ b'.clientBuf = [] ∧ b'.daemon = b.daemon ++ okays results ++ b.clientBuf.drop (allBytes done).length ∧
        (∃ r ∈ more.head?, Blind most r) ∨
      b'.hijacked = false ∧ b'.clientBuf = b.clientBuf.drop (allBytes done).length ∧ b'.daemon = b.daemon ++ okays results ∧
        ∀ r ∈ more.head?, b'.clientBuf.length < r.bytes.length)

theorem gone_hijack {left : List Request} (b : Bridge) (blind : ∃ r ∈ left.head?, Blind most r) :
    Gone json mac roots most left b b.hijack :=
  ⟨[], left, [], rfl, .nil, Nat.zero_le _, (List.append_nil _).symm,
    .inl ⟨rfl, rfl, by rw [okays, List.flatMap_nil, List.append_nil]; rfl, blind⟩⟩

theorem gone_wait {left : List Request} (b : Bridge) (opens : b.hijacked = false)
    (short : ∀ r ∈ left.head?, b.clientBuf.length < r.bytes.length) :
    Gone json mac roots most left b b :=
  ⟨[], left, [], rfl, .nil, Nat.zero_le _, (List.append_nil _).symm,
    .inr ⟨opens, rfl, by rw [okays, List.flatMap_nil, List.append_nil], short⟩⟩

theorem Good.positive (good : Good r) : 0 < r.bytes.length := by
  obtain ⟨front, same, -⟩ := good.isHead
  rw [Request.bytes, same, List.length_append, List.length_append]
  have : headMark.length = 4 := rfl
  omega

/-- The bridge behind a request that has been dealt with. -/
def Bridge.behind (b : Bridge) (more : Bytes) (result : Except (String × Reason) Bytes) : Bridge :=
  { b with clientBuf := more, daemon := b.daemon ++ okays [result], client := b.client ++ errors [result] }

theorem round_request {b : Bridge} (buffer : b.clientBuf = r.bytes ++ more)
    (goes : next b.clientBuf = .request h r.head.length r.bytes.length)
    (stays : h.isUpgrade = false) :
    b.round json mac roots = some (b.behind more (outData json mac roots h r.bytes r.body), true) := by
  have whole : b.clientBuf.take r.bytes.length = r.bytes := by rw [buffer, List.take_left]
  have rest : b.clientBuf.drop r.bytes.length = more := by rw [buffer, List.drop_left]
  have body : r.bytes.drop r.head.length = r.body := List.drop_left
  rw [Bridge.round, goes]
  dsimp only
  rw [stays, if_neg Bool.false_ne_true, whole, rest, body]
  cases result : outData json mac roots h r.bytes r.body with
  | error why =>
    have none_ : okays [Except.error why] = [] := rfl
    rw [Bridge.behind, none_, List.append_nil]
    rfl
  | ok out =>
    have none_ : errors [Except.ok out] = [] := rfl
    have all : okays [Except.ok out] = out := List.append_nil out
    rw [Bridge.behind, none_, List.append_nil, all]

theorem Gone.cons {left : List Request} {b b' : Bridge} {result : Except (String × Reason) Bytes}
    (dealt : Dealt json mac roots r result)
    (buffer : b.clientBuf = r.bytes ++ more) (gone : Gone json mac roots most left (b.behind more result) b') :
    Gone json mac roots most (r :: left) b b' := by
  obtain ⟨done, others, results, rfl, each, within, client, ends⟩ := gone
  have length : (allBytes (r :: done)).length = r.bytes.length + (allBytes done).length := List.length_append
  have rest : b.clientBuf.drop (allBytes (r :: done)).length = more.drop (allBytes done).length := by
    rw [buffer, length, List.drop_length_add_append]
  refine ⟨r :: done, others, result :: results, rfl, .cons dealt each, ?_, ?_, ?_⟩
  · rw [buffer, length, List.length_append]
    exact Nat.add_le_add_left within _
  · rw [client, errors_cons, ← List.append_assoc]
    rfl
  · rw [rest]
    have daemon : (b.behind more result).daemon ++ okays results = b.daemon ++ okays (result :: results) := by
      rw [okays_cons, ← List.append_assoc]
      rfl
    rwa [daemon] at ends

theorem rounds_gone {left : List Request} {b : Bridge} {n : Nat} (good : ∀ r ∈ left, Good r) (opens : b.hijacked = false)
    (begins : b.clientBuf <+: allBytes left) (enough : b.clientBuf.length < n) :
    ∃ b', b.rounds json mac roots n = some b' ∧ Gone json mac roots most left b b' := by
  induction left generalizing b n with
  | nil =>
    obtain ⟨n, rfl⟩ := Nat.exists_eq_succ_of_ne_zero (Nat.ne_of_gt (Nat.lt_of_le_of_lt (Nat.zero_le _) enough))
    have empty : b.clientBuf = [] := List.prefix_nil.mp begins
    refine ⟨b, ?_, gone_wait b opens nofun⟩
    rw [Bridge.rounds, Bridge.round, empty]
    rfl
  | cons r left ih =>
    obtain ⟨n, rfl⟩ := Nat.exists_eq_succ_of_ne_zero (Nat.ne_of_gt (Nat.lt_of_le_of_lt (Nat.zero_le _) enough))
    have goodFirst := good r List.mem_cons_self
    have hijacks : Blind most r → b.round json mac roots = some (b.hijack, false) →
        ∃ b', b.rounds json mac roots (n + 1) = some b' ∧ Gone json mac roots most (r :: left) b b' :=
      fun blind goes => ⟨b.hijack, by rw [Bridge.rounds, goes], gone_hijack b ⟨r, rfl, blind⟩⟩
    have first : r.bytes <+: allBytes (r :: left) := List.prefix_append r.bytes (allBytes left)
    by_cases short : b.clientBuf.length < r.bytes.length
    · have inside := List.prefix_of_prefix_length_le begins first (Nat.le_of_lt short)
      rcases next_short goodFirst inside short with waits | ⟨raw, blind⟩
      · refine ⟨b, by rw [Bridge.rounds, Bridge.round, waits], gone_wait b opens ?_⟩
        rintro _ ⟨⟩
        exact short
      · refine hijacks blind ?_
        rw [Bridge.round, raw]
    · obtain ⟨more, buffer⟩ := List.prefix_of_prefix_length_le first begins (Nat.le_of_not_lt short)
      rcases next_whole goodFirst more with ⟨raw, blind⟩ | ⟨s, h, text, scan, goes⟩
      · refine hijacks blind ?_
        rw [Bridge.round, ← buffer, raw]
      · rw [buffer] at goes
        cases upgrade : h.isUpgrade with
        | true =>
          refine hijacks (.upgrade s h text scan upgrade) ?_
          rw [Bridge.round, goes]
          exact if_pos upgrade
        | false =>
          have round : b.round json mac roots = _ := round_request buffer.symm goes upgrade
          have rest : more <+: allBytes left := by
            rw [← buffer] at begins
            exact (List.prefix_append_right_inj r.bytes).mp begins
          have positive := goodFirst.positive
          have fuel : more.length < n := by
            rw [← buffer, List.length_append] at enough
            omega
          obtain ⟨b', ends, gone⟩ := ih (b := b.behind more (outData json mac roots h r.bytes r.body))
            (fun r inside => good r (List.mem_cons_of_mem _ inside)) opens rest fuel
          refine ⟨b', ?_, gone.cons ⟨s, h, text, scan, goodFirst.scanned s h text scan, rfl⟩ buffer.symm⟩
          rw [Bridge.rounds, round]
          exact ends

/-! ## A connection -/

variable (json mac roots) in
/-- All that has been read, in these reads. -/
def Bridge.run (reads : List Bytes) : Option Bridge := reads.foldlM (Bridge.read json mac roots) Bridge.start

variable (json mac roots) in
/-- What has become of the requests whose bytes have arrived so far. The first that has not been dealt with is not all
there, unless all goes on as it comes. -/
def Transparent (reqs : List Request) (arrived : Bytes) (b : Bridge) : Prop :=
  ∃ done more results, reqs = done ++ more ∧ List.Forall₂ (Sent json mac roots) done results ∧
    (allBytes done).length ≤ arrived.length ∧ b.client = errors results ∧
    (b.hijacked = true ∧ b.clientBuf = [] ∧ b.daemon = okays results ++ arrived.drop (allBytes done).length ∨
      b.hijacked = false ∧ b.clientBuf = arrived.drop (allBytes done).length ∧ b.daemon = okays results ∧
        ∀ r ∈ more.head?, b.clientBuf.length < r.bytes.length)

variable (json mac roots most) in
/-- How, and where the bridge stopped looking, if it did. -/
def Followed (reqs : List Request) (arrived : Bytes) (b : Bridge) : Prop :=
  ∃ done more results, reqs = done ++ more ∧ List.Forall₂ (Dealt json mac roots) done results ∧
    (allBytes done).length ≤ arrived.length ∧ b.client = errors results ∧
    (b.hijacked = true ∧ b.clientBuf = [] ∧ b.daemon = okays results ++ arrived.drop (allBytes done).length ∧
        (∃ r ∈ more.head?, Blind most r) ∨
      b.hijacked = false ∧ b.clientBuf = arrived.drop (allBytes done).length ∧ b.daemon = okays results ∧
        ∀ r ∈ more.head?, b.clientBuf.length < r.bytes.length)

theorem Followed.transparent {reqs : List Request} {arrived : Bytes} {b : Bridge}
    (followed : Followed json mac roots most reqs arrived b) : Transparent json mac roots reqs arrived b := by
  obtain ⟨done, more, results, whole, each, within, client, ends⟩ := followed
  refine ⟨done, more, results, whole, each.imp fun _ _ dealt => dealt.sent, within, client, ends.imp_left ?_⟩
  exact fun ⟨raw, empty, daemon, _⟩ => ⟨raw, empty, daemon⟩

theorem read_followed {reqs : List Request} {arrived data : Bytes} {b : Bridge} (good : ∀ r ∈ reqs, Good r)
    (few : data.length ≤ most)
    (begins : arrived ++ data <+: allBytes reqs) (sofar : Followed json mac roots most reqs arrived b) :
    ∃ b', b.read json mac roots data = some b' ∧ Followed json mac roots most reqs (arrived ++ data) b' := by
  obtain ⟨done, more, results, rfl, each, within, client, ⟨raw, empty, daemon, blind⟩ | ⟨opens, buffer, daemon, short⟩⟩ := sofar
  · refine ⟨{ b with daemon := b.daemon ++ data }, if_pos raw, done, more, results, rfl, each, ?_, client,
      .inl ⟨raw, empty, ?_, blind⟩⟩
    · rw [List.length_append]
      omega
    · rw [daemon, List.append_assoc, List.drop_append_of_le_length within]
  · have rest : (arrived ++ data).drop (allBytes done).length = (b.append data).clientBuf := by
      rw [Bridge.append, buffer, List.drop_append_of_le_length within]
    have all : allBytes (done ++ more) = allBytes done ++ allBytes more := List.flatMap_append
    have first : allBytes done ++ (b.append data).clientBuf = arrived ++ data := by
      have front : allBytes done <+: arrived ++ data := by
        refine List.prefix_of_prefix_length_le ?_ begins (Nat.le_trans within ?_)
        · exact all ▸ List.prefix_append ..
        · rw [List.length_append]
          exact Nat.le_add_right ..
      obtain ⟨x, same⟩ := front
      rw [← rest, ← same, List.drop_left]
    have behind : (b.append data).clientBuf <+: allBytes more := by
      rw [← first, all] at begins
      exact (List.prefix_append_right_inj _).mp begins
    have gone : ∀ b', Gone json mac roots most more (b.append data) b' →
        Followed json mac roots most (done ++ more) (arrived ++ data) b' := by
      rintro b' ⟨done', more', results', rfl, each', within', client', ends⟩
      have length : (allBytes (done ++ done')).length = (allBytes done).length + (allBytes done').length := by
        rw [← List.length_append, allBytes, List.flatMap_append, allBytes, allBytes]
      have drops : (arrived ++ data).drop (allBytes (done ++ done')).length =
          (b.append data).clientBuf.drop (allBytes done').length := by
        rw [length, ← List.drop_drop, rest]
      refine ⟨done ++ done', more', results ++ results', (List.append_assoc ..).symm, List.rel_append each each', ?_, ?_, ?_⟩
      · rw [length, ← first, List.length_append]
        exact Nat.add_le_add_left within' _
      · have before : (b.append data).client = errors results := client
        rw [client', before, errors, errors, errors, List.filterMap_append]
      · have before : (b.append data).daemon = okays results := daemon
        have both : okays results ++ okays results' = okays (results ++ results') := List.flatMap_append.symm
        rwa [drops, ← both, ← before]
    rw [Bridge.read, opens, if_neg Bool.false_ne_true]
    split
    next long =>
      refine ⟨_, rfl, gone _ (gone_hijack _ ?_)⟩
      cases more with
      | nil =>
        rw [List.prefix_nil.mp behind] at long
        exact absurd long (by decide)
      | cons r more =>
        refine ⟨r, rfl, .long ?_⟩
        have unfinished := short r rfl
        have both : (b.append data).clientBuf.length = b.clientBuf.length + data.length := List.length_append
        omega
    · have ends : ∃ b', (b.append data).drainClientBuffer json mac roots = some b' ∧
        Gone json mac roots most more (b.append data) b' :=
        rounds_gone (fun r inside => good r (List.mem_append_right _ inside)) opens behind (Nat.lt_succ_self _)
      obtain ⟨b', ends, went⟩ := ends
      exact ⟨b', ends, gone b' went⟩

theorem run_followed {reqs : List Request} {reads : List Bytes} (good : ∀ r ∈ reqs, Good r)
    (few : ∀ data ∈ reads, data.length ≤ most)
    (begins : reads.flatten <+: allBytes reqs) :
    ∃ b, Bridge.run json mac roots reads = some b ∧ Followed json mac roots most reqs reads.flatten b := by
  have start : Followed json mac roots most reqs [] Bridge.start := by
    refine ⟨[], reqs, [], rfl, .nil, Nat.zero_le _, rfl, .inr ⟨rfl, rfl, rfl, fun r first => ?_⟩⟩
    exact (good r (List.mem_of_mem_head? first)).positive
  have steps : ∀ (reads : List Bytes) (arrived : Bytes) (b : Bridge), (∀ data ∈ reads, data.length ≤ most) →
      arrived ++ reads.flatten <+: allBytes reqs →
      Followed json mac roots most reqs arrived b →
      ∃ b', reads.foldlM (Bridge.read json mac roots) b = some b' ∧
        Followed json mac roots most reqs (arrived ++ reads.flatten) b' := by
    intro reads
    induction reads with
    | nil =>
      intro arrived b _ _ sofar
      exact ⟨b, rfl, by rwa [List.flatten_nil, List.append_nil]⟩
    | cons data reads ih =>
      intro arrived b few begins sofar
      rw [List.flatten_cons, ← List.append_assoc] at begins ⊢
      obtain ⟨b', reads', next⟩ := read_followed good (few data List.mem_cons_self) ((List.prefix_append ..).trans begins) sofar
      have later : ∀ data ∈ reads, data.length ≤ most := fun data inside => few data (List.mem_cons_of_mem _ inside)
      obtain ⟨b'', goes, ends⟩ := ih (arrived ++ data) b' later begins next
      exact ⟨b'', by rw [List.foldlM_cons, reads']; exact goes, ends⟩
  have whole := steps reads [] Bridge.start few begins start
  exact whole

theorem run_transparent {reqs : List Request} {reads : List Bytes} (good : ∀ r ∈ reqs, Good r)
    (begins : reads.flatten <+: allBytes reqs) :
    ∃ b, Bridge.run json mac roots reads = some b ∧ Transparent json mac roots reqs reads.flatten b := by
  have few : ∀ data ∈ reads, data.length ≤ reads.flatten.length :=
    fun data inside => (List.sublist_flatten_of_mem inside).length_le
  obtain ⟨b, goes, followed⟩ := run_followed good few begins
  exact ⟨b, goes, followed.transparent⟩

/-! ## Any stream -/

/-- What the loop does next is sound: it does not stop the program, and a request ends where its head does or behind
it, within what is there. -/
def Within (buf : Bytes) (n : Next) : Prop :=
  n ≠ .trap ∧ ∀ h headerLen totalLen, n = .request h headerLen totalLen → headerLen ≤ totalLen ∧ totalLen ≤ buf.length

def Bounded (buf : Bytes) : Prop := Within buf (next buf)

/-- A head gives no length below zero, and none too great; and if the body is in chunks, its end is not taken from
within the head. -/
def SaneHead (buf : Bytes) (i : Nat) (h : Head) : Prop :=
  (h.isChunked = false → ∀ n : Int, h.contentLength = some n → 0 ≤ n ∧ (i + 4 : Nat) + n ≤ maxInt) ∧
    (h.isChunked = true → positionOf term (buf.drop (i + 4)) = none → ∀ j, positionOf term2 buf = some j → i ≤ j)

/-- So is the head in front, if there is one. -/
def Sane (buf : Bytes) : Prop :=
  ∀ i s h, positionOf headerMark buf = some i → fromUtf8 (buf.take (i + 4)) = some s → Head.ofText s = some h → SaneHead buf i h

/-- With the end of the body known. -/
theorem frame_bytes {headerLen : Nat} {n : Int} (bytes : bodyLen h headerLen buf = .bytes n) (fits : headerLen + n ≤ buf.length) :
    Within buf (frame h headerLen buf) ↔ 0 ≤ n := by
  rw [frame, bytes]
  dsimp only
  rw [if_neg (by omega)]
  by_cases negative : headerLen + n < 0
  · rw [if_pos negative]
    exact iff_of_false (fun both => both.1 rfl) (by omega)
  · rw [if_neg negative]
    constructor
    · rintro ⟨-, each⟩
      have := (each h headerLen _ rfl).1
      omega
    · intro least
      refine ⟨nofun, ?_⟩
      rintro _ _ _ ⟨⟩
      omega

/-- Without it. -/
theorem frame_open {headerLen : Nat} (stops : bodyLen h headerLen buf = .needMore ∨ bodyLen h headerLen buf = .raw) :
    Within buf (frame h headerLen buf) := by
  rw [frame]
  rcases stops with stops | stops
  · rw [stops]
    exact ⟨nofun, nofun⟩
  · rw [stops]
    exact ⟨nofun, nofun⟩

theorem frame_chunked {i : Nat} (inside : i + 4 ≤ buf.length) (chunked : h.isChunked = true) :
    Within buf (frame h (i + 4) buf) ↔
      (positionOf term (buf.drop (i + 4)) = none → ∀ j, positionOf term2 buf = some j → i ≤ j) := by
  cases found : positionOf term (buf.drop (i + 4)) with
  | some k =>
    have bound := Wire.positionOf_bound found
    rw [List.length_drop] at bound
    have bytes : bodyLen h (i + 4) buf = .bytes (k + term.length) := by rw [bodyLen, if_pos chunked, found]
    rw [frame_bytes bytes (by omega)]
    exact iff_of_true (by omega) nofun
  | none =>
    cases other : positionOf term2 buf with
    | none =>
      refine iff_of_true (frame_open ?_) nofun
      rw [bodyLen, if_pos chunked, found, other]
      dsimp only
      split
      · exact .inr rfl
      · exact .inl rfl
    | some j =>
      have bound := Wire.positionOf_bound other
      have length : term2.length = 4 := rfl
      have bytes : bodyLen h (i + 4) buf = .bytes ((j + term2.length : Nat) - (i + 4 : Nat)) := by
        rw [bodyLen, if_pos chunked, found, other]
      rw [frame_bytes bytes (by omega)]
      constructor
      · rintro least - _ ⟨⟩
        omega
      · intro behind
        have := behind rfl j rfl
        omega

theorem frame_length {i : Nat} (inside : i + 4 ≤ buf.length) (whole : h.isChunked = false) :
    Within buf (frame h (i + 4) buf) ↔ ∀ n : Int, h.contentLength = some n → 0 ≤ n ∧ (i + 4 : Nat) + n ≤ maxInt := by
  cases given : h.contentLength with
  | none =>
    have bytes : bodyLen h (i + 4) buf = .bytes 0 := by rw [bodyLen, whole, given]; rfl
    rw [frame_bytes bytes (by omega)]
    exact iff_of_true (by omega) nofun
  | some cl =>
    have length : bodyLen h (i + 4) buf =
        if (i + 4 : Nat) + cl > maxInt then .trap
        else if (buf.length : Int) < (i + 4 : Nat) + cl then .needMore else .bytes cl := by
      rw [bodyLen, if_neg (by rw [whole]; exact Bool.false_ne_true), given]
    have named : (∀ n : Int, some cl = some n → 0 ≤ n ∧ (i + 4 : Nat) + n ≤ maxInt) ↔ 0 ≤ cl ∧ (i + 4 : Nat) + cl ≤ maxInt :=
      ⟨fun each => each cl rfl, fun holds n same => Option.some.inj same ▸ holds⟩
    rw [named]
    by_cases great : (i + 4 : Nat) + cl > maxInt
    · rw [if_pos great] at length
      refine iff_of_false (fun both => both.1 ?_) (by omega)
      rw [frame, length]
    · rw [if_neg great] at length
      by_cases needs : (buf.length : Int) < (i + 4 : Nat) + cl
      · rw [if_pos needs] at length
        exact iff_of_true (frame_open (.inl length)) (by omega)
      · rw [if_neg needs] at length
        rw [frame_bytes length (by omega)]
        exact ⟨fun least => ⟨least, by omega⟩, fun both => both.1⟩

theorem frame_bounded {i : Nat} (inside : i + 4 ≤ buf.length) : Within buf (frame h (i + 4) buf) ↔ SaneHead buf i h := by
  rw [SaneHead]
  by_cases chunked : h.isChunked = true
  · rw [frame_chunked inside chunked]
    exact ⟨fun ends => ⟨fun whole => absurd (chunked.symm.trans whole) nofun, fun _ => ends⟩, fun both => both.2 chunked⟩
  · have whole := Bool.eq_false_iff.mpr chunked
    rw [frame_length inside whole]
    exact ⟨fun fits => ⟨fun _ => fits, fun is => absurd is chunked⟩, fun both => both.1 whole⟩

theorem bounded_iff : Bounded buf ↔ Sane buf := by
  rw [Bounded, next]
  cases found : positionOf headerMark buf with
  | none => exact iff_of_true ⟨nofun, nofun⟩ fun i _ _ some_ => by cases found.symm.trans some_
  | some i =>
    have bound : i + 4 ≤ buf.length := Wire.positionOf_bound found
    have length : headerMark.length = 4 := rfl
    dsimp only
    rw [length]
    cases text : fromUtf8 (buf.take (i + 4)) with
    | none =>
      refine iff_of_true ⟨nofun, nofun⟩ fun j s h found' text' => ?_
      cases found.symm.trans found'
      cases text.symm.trans text'
    | some s =>
      dsimp only
      cases scan : Head.ofText s with
      | none =>
        refine iff_of_true ⟨nofun, nofun⟩ fun j s h found' text' scan' => ?_
        cases found.symm.trans found'
        cases text.symm.trans text'
        cases scan.symm.trans scan'
      | some h =>
        rw [frame_bounded bound]
        constructor
        · intro sane j s' h' found' text' scan'
          cases found.symm.trans found'
          cases text.symm.trans text'
          cases scan.symm.trans scan'
          exact sane
        · exact fun sane => sane i s h found text scan

/-- The buffers at which the loop makes a round. -/
inductive Looks (json : JSONSerialization) (mac : Mac File) (roots : List SharedRoot) : Bridge → Bytes → Prop where
  | here (b : Bridge) : Looks json mac roots b b.clientBuf
  | later {b b' : Bridge} {buf : Bytes} : b.round json mac roots = some (b', true) → Looks json mac roots b' buf →
      Looks json mac roots b buf

variable (json mac roots) in
/-- Those at which it makes one when all of this is read. -/
def Looked (reads : List Bytes) (buf : Bytes) : Prop :=
  ∃ front data back b, reads = front ++ data :: back ∧ Bridge.run json mac roots front = some b ∧ b.hijacked = false ∧
    (b.append data).clientBuf.length ≤ 4 * 1024 * 1024 ∧ Looks json mac roots (b.append data) buf

theorem frame_request {headerLen hl total : Nat} {h' : Head} (goes : frame h headerLen buf = .request h' hl total) :
    hl = headerLen := by
  rw [frame] at goes
  split at goes
  · cases goes
  · cases goes
  · cases goes
  · split at goes
    · cases goes
    · split at goes <;> cases goes
      rfl

theorem next_positive {headerLen total : Nat} (goes : next buf = .request h headerLen total) : 4 ≤ headerLen := by
  rw [next] at goes
  split at goes
  · cases goes
  · dsimp only at goes
    split at goes
    · cases goes
    · split at goes
      · cases goes
      · rw [frame_request goes]
        exact Nat.le_add_left ..

theorem drain_ends {b : Bridge} {n : Nat} (bounded : ∀ buf, Looks json mac roots b buf → Bounded buf)
    (enough : b.clientBuf.length < n) :
    ∃ b', b.rounds json mac roots n = some b' := by
  induction n generalizing b with
  | zero => exact absurd enough (Nat.not_lt_zero _)
  | succ n ih =>
    have here := bounded b.clientBuf (.here b)
    have goes : ∃ b' again, b.round json mac roots = some (b', again) ∧
        (again = true → b'.clientBuf.length < b.clientBuf.length) := by
      rw [Bridge.round]
      split
      · exact ⟨_, _, rfl, nofun⟩
      · exact ⟨_, _, rfl, nofun⟩
      next stops => exact absurd stops here.1
      next h headerLen total goes =>
        have least := next_positive goes
        have within := here.2 h headerLen total goes
        have shorter : (b.clientBuf.drop total).length < b.clientBuf.length := by
          rw [List.length_drop]
          omega
        split
        · exact ⟨_, _, rfl, nofun⟩
        · dsimp only
          split
          · exact ⟨_, _, rfl, fun _ => shorter⟩
          · exact ⟨_, _, rfl, fun _ => shorter⟩
    obtain ⟨b', again, round, shorter⟩ := goes
    rw [Bridge.rounds, round]
    cases again with
    | false => exact ⟨b', rfl⟩
    | true =>
      have fuel : b'.clientBuf.length < n := Nat.lt_of_lt_of_le (shorter rfl) (Nat.le_of_lt_succ enough)
      exact ih (fun buf looks => bounded buf (.later round looks)) fuel

theorem run_append (front back : List Bytes) : Bridge.run json mac roots (front ++ back) =
    (Bridge.run json mac roots front).bind fun b => back.foldlM (Bridge.read json mac roots) b :=
  List.foldlM_append

theorem run_ends {reads : List Bytes} (bounded : ∀ buf, Looked json mac roots reads buf → Bounded buf) :
    ∃ b, Bridge.run json mac roots reads = some b := by
  have each : ∀ back front b, reads = front ++ back → Bridge.run json mac roots front = some b →
      ∃ b', Bridge.run json mac roots reads = some b' := by
    intro back
    induction back with
    | nil =>
      intro front b whole goes
      exact ⟨b, by rw [whole, List.append_nil, goes]⟩
    | cons data back ih =>
      intro front b whole goes
      have next : ∃ b', b.read json mac roots data = some b' := by
        rw [Bridge.read]
        split
        · exact ⟨_, rfl⟩
        next opens =>
          split
          · exact ⟨_, rfl⟩
          next fits =>
            refine drain_ends (fun buf looks => bounded buf ?_) (Nat.lt_succ_self _)
            exact ⟨front, data, back, b, whole, goes, Bool.eq_false_iff.mpr opens, Nat.le_of_not_lt fits, looks⟩
      obtain ⟨b', reads'⟩ := next
      refine ih (front ++ [data]) b' (by rw [whole, List.append_cons]) ?_
      rw [run_append, goes, Option.bind_some, List.foldlM_cons, reads']
      rfl
  exact each reads [] Bridge.start rfl rfl

/-- No body is an object. -/
def noObjects : JSONSerialization := ⟨fun _ => none, fun _ => []⟩

def versionText : String := "GET /version HTTP/1.1\r\nHost: docker\r\n\r\n"

def version : Request := ⟨utf8 versionText, [], false⟩

theorem version_formed : WellFormed version := by
  refine ⟨utf8 "GET", utf8 "/version", utf8 "HTTP/1.1", [⟨utf8 "Host", utf8 " docker"⟩], by decide +kernel,
    ⟨by decide, by decide +kernel⟩,
    by decide +kernel, ?_, ?_⟩
  · intro f inside
    rw [List.mem_singleton.mp inside]
    exact ⟨⟨by decide, by decide +kernel⟩, by decide +kernel⟩
  · have other : ∀ name, utf8 "host" ≠ utf8 name → ∀ f ∈ [(⟨utf8 "Host", utf8 " docker"⟩ : Field)], ¬ f.Named name := by
      intro name differs f inside named
      rw [List.mem_singleton.mp inside] at named
      exact differs named
    exact ⟨nofun, fun f inside named => absurd named (other _ (by decide) f inside),
      fun f inside named => absurd named (other _ (by decide) f inside), fun _ _ => rfl⟩

/-- A body in chunks that has none. -/
def emptyChunks : Request := ⟨utf8 "POST /build HTTP/1.1\r\nTransfer-Encoding: chunked\r\n\r\n", utf8 "0\r\n\r\n", true⟩

theorem emptyChunks_formed : WellFormed emptyChunks := by
  refine ⟨utf8 "POST", utf8 "/build", utf8 "HTTP/1.1", [⟨utf8 "Transfer-Encoding", utf8 " chunked"⟩], by decide +kernel,
    ⟨by decide, by decide +kernel⟩, by decide +kernel, ?_, ?_⟩
  · intro f inside
    rw [List.mem_singleton.mp inside]
    exact ⟨⟨by decide, by decide +kernel⟩, by decide +kernel⟩
  · have named : (utf8 "Transfer-Encoding").map Field.lower = utf8 "transfer-encoding" := by decide
    refine ⟨fun _ => ⟨⟨_, List.mem_cons_self, named⟩, fun f inside => ?_, ?_⟩, fun f inside _ => ?_,
      fun f inside named => ?_, nofun⟩
    · rw [List.mem_singleton.mp inside]
      exact (by decide : ¬ (utf8 "Transfer-Encoding").map Field.lower = utf8 "content-length")
    · have body : ChunkedBody (headFrom (utf8 "0") []) :=
        .last ⟨['0'], [], by decide, by decide, by decide, .inl rfl, nofun⟩ nofun
      exact body
    · rw [List.mem_singleton.mp inside]
      exact ⟨rfl, by decide⟩
    · rw [List.mem_singleton.mp inside] at named
      exact absurd named (by decide : ¬ (utf8 "Transfer-Encoding").map Field.lower = utf8 "content-length")

end Harpoon.UnixBridge
