import Harpoon.Docker.Http

/-!
# Responses in segments

What is read of a response depends on its bytes alone, exactly when no line that is asked for ends beyond its limit but within what
a read can bring, or a line is refused in the end; and a sum of lengths overflows exactly when a chunk is declared with so great a
size. Within its limits is what is read either way.
-/

namespace Harpoon.Docker.Http

open Interact (Fault Program ReaderOp ReaderSig)
open Interact.Reader (Loose Returns Valid asked onStream returns_bind run_steady run_uncut_iff)
open Wire (Bytes Segmented)

/-- How the bytes of a response are read when each read brings as much as it can. -/
def whole (maxBody : Nat) (headOnly : Bool) (broken : Option HttpError) (stream : Bytes) : Except (Fault HttpError) Response :=
  onStream lineTooLong broken 8192 (readResponse (stream.length + 1) maxBody headOnly) stream

/-- What is asked for on that way, each time with the bytes that are still to come. -/
def asks (maxBody : Nat) (headOnly : Bool) (broken : Option HttpError) (stream : Bytes) : List (ReaderOp HttpError × Bytes) :=
  asked lineTooLong broken 8192 (readResponse (stream.length + 1) maxBody headOnly) stream

def Uncut (maxBody : Nat) (headOnly : Bool) (broken : Option HttpError) (stream : Bytes) : Prop :=
  ∀ reads reads', Segmented 8192 reads stream → Segmented 8192 reads' stream →
    receive maxBody headOnly broken reads = receive maxBody headOnly broken reads'

def NoOverflow (maxBody : Nat) (headOnly : Bool) (broken : Option HttpError) (stream : Bytes) : Prop :=
  ∀ reads, Segmented 8192 reads stream → receive maxBody headOnly broken reads ≠ .error .overflow

/-- How many bytes the names and values are. -/
def headerSize (headers : List (String × String)) : Nat :=
  headers.foldr (fun kv n => kv.1.utf8ByteSize + kv.2.utf8ByteSize + n) 0

/-- What is read is within the limits: the body, the status line, and the headers. -/
def Bounded (maxBody : Nat) (headOnly : Bool) (broken : Option HttpError) (stream : Bytes) : Prop :=
  ∀ reads r, Segmented 8192 reads stream → receive maxBody headOnly broken reads = .ok r →
    r.body.length ≤ maxBody ∧ headerSize r.headers ≤ maxHeaderBytes ∧
      ∃ i, Wire.positionOf Interact.Reader.crlf stream = some i ∧ i ≤ maxHeaderBytes

/-- A line that is refused however it comes. -/
def TooLong (broken : Option HttpError) (o : ReaderOp HttpError × Bytes) : Prop :=
  Interact.Reader.serveStream lineTooLong broken 8192 o.1 o.2 = .error (.error lineTooLong)

/-- Of the lines that are asked for none ends beyond its limit but within what a read can bring, or one of them is refused in the
end; and no sum that is asked for is too great. -/
structure Clear (maxBody : Nat) (headOnly : Bool) (broken : Option HttpError) (stream : Bytes) : Prop where
  lines : (∀ o ∈ asks maxBody headOnly broken stream, ¬ Loose 8192 o.1 o.2) ∨
    ∃ o ∈ asks maxBody headOnly broken stream, TooLong broken o
  sums : ∀ o ∈ asks maxBody headOnly broken stream, ∀ a b bound, o.1 = .sum a b bound → a + b < bound

section

variable {maxBody n : Nat} {headOnly : Bool} {broken : Option HttpError} {stream : Bytes} {reads : List Bytes} {r : Response}

theorem receive_eq (cut : Segmented 8192 reads stream) : receive maxBody headOnly broken reads =
    Interact.Reader.run lineTooLong broken (readResponse (stream.length + 1) maxBody headOnly) [] reads := by
  rw [receive, cut.whole]

theorem whole_tooLong_iff : whole maxBody headOnly broken stream = .error (.error lineTooLong) ↔
    ∃ o ∈ asks maxBody headOnly broken stream, TooLong broken o :=
  Interact.Reader.onStream_error_iff

theorem uncut_iff : Uncut maxBody headOnly broken stream ↔
    (∀ o ∈ asks maxBody headOnly broken stream, ¬ Loose 8192 o.1 o.2) ∨
      whole maxBody headOnly broken stream = .error (.error lineTooLong) := by
  rw [asks, whole, ← run_uncut_iff (by decide)]
  constructor
  · intro uncut reads reads' cut cut'
    rw [← receive_eq cut, ← receive_eq cut']
    exact uncut reads reads' cut cut'
  · intro uncut reads reads' cut cut'
    rw [receive_eq cut, receive_eq cut']
    exact uncut reads reads' cut cut'

/-! ## Within the limits -/

theorem trim_size (s : String) : (Desktop.trim s).utf8ByteSize ≤ s.utf8ByteSize := by
  have front (p : Char → Bool) (cs : List Char) : ∃ a, cs = a ++ cs.dropWhile p :=
    ⟨cs.takeWhile p, List.takeWhile_append_dropWhile.symm⟩
  obtain ⟨a, start⟩ := front Git.isWhitespace s.toList
  obtain ⟨b, stop⟩ := front Git.isWhitespace (s.toList.dropWhile Git.isWhitespace).reverse
  have middle : s.toList.dropWhile Git.isWhitespace = Dockerfile.trimChars s.toList ++ b.reverse := by
    rw [Dockerfile.trimChars, ← List.reverse_append, ← stop, List.reverse_reverse]
  have whole : s = String.ofList a ++ Desktop.trim s ++ String.ofList b.reverse := by
    rw [Desktop.trim, ← String.ofList_append, ← String.ofList_append, List.append_assoc, ← middle, ← start, String.ofList_toList]
  have size := congrArg String.utf8ByteSize whole
  rw [String.utf8ByteSize_append, String.utf8ByteSize_append] at size
  omega

theorem returns_fail {α : Type} {post : α → Prop} (e : HttpError) : Returns post (fail e : Reading α) :=
  .ask fun none => nomatch none

theorem returns_ofExcept {α : Type} {post : α → Prop} (x : Except HttpError α) (ok : ∀ a, x = .ok a → post a) :
    Returns post (ofExcept x) := by
  cases x with
  | ok a => exact .done (ok a rfl)
  | error e => exact returns_fail e

theorem returns_readLine {post : String → Prop} {max : Nat} (each : ∀ line, post line) : Returns post (readLine max) :=
  .ask fun bytes _ => .done (each (textOf bytes))

theorem returns_readExact {max : Nat} : Returns (fun data => data.length = n ∧ n ≤ max) (readExact n max) := by
  rw [readExact]
  split
  next => exact returns_fail _
  next within => exact .ask fun data valid => .done ⟨valid, Nat.le_of_not_lt within⟩

theorem returns_add {a b : Nat} : Returns (fun total => total = a + b) (add a b) :=
  .ask fun _ valid => .done valid.1

theorem returns_readHeaders {bytes : Nat} (within : bytes ≤ maxHeaderBytes) :
    Returns (fun headers => bytes + headerSize headers ≤ maxHeaderBytes) (readHeaders n bytes) := by
  induction n generalizing bytes with
  | zero => exact returns_fail _
  | succ n ih =>
    rw [readHeaders]
    refine returns_bind (returns_readLine fun line => ?_)
    show Returns _ (if _ then _ else _)
    split
    next => exact .done within
    next =>
      show Returns _ (if _ then _ else _)
      split
      next => exact returns_fail _
      next fits =>
        split
        next => exact returns_fail _
        next k v split =>
          refine returns_bind ((ih (Nat.le_of_not_lt fits)).mono fun headers most => .done ?_)
          obtain ⟨line, -⟩ := Wire.splitOnce_iff.mp split
          have size := congrArg String.utf8ByteSize line
          rw [String.utf8ByteSize_append, String.utf8ByteSize_append] at size
          have := trim_size k
          have := trim_size v
          show bytes + ((Desktop.trim k).utf8ByteSize + (Desktop.trim v).utf8ByteSize + headerSize headers) ≤ maxHeaderBytes
          omega

theorem returns_readTrailers : Returns (fun _ => True) (readTrailers n) := by
  induction n with
  | zero => exact returns_fail _
  | succ n ih =>
    rw [readTrailers]
    refine returns_bind (returns_readLine fun line => ?_)
    show Returns _ (if _ then _ else _)
    split
    · exact .done trivial
    · exact ih

theorem returns_readChunks {rounds : Nat} {body : Bytes} (within : body.length ≤ maxBody) :
    Returns (fun body => body.length ≤ maxBody) (readChunks rounds maxBody n body) := by
  induction n generalizing body with
  | zero => exact returns_fail _
  | succ n ih =>
    rw [readChunks]
    refine returns_bind (returns_readLine fun line => ?_)
    refine returns_bind (returns_ofExcept _ fun size _ => ?_)
    show Returns _ (if _ then _ else _)
    split
    next =>
      refine returns_bind (returns_readTrailers.mono fun _ _ => ?_)
      exact .done within
    next =>
      refine returns_bind (returns_add.mono fun total sum => ?_)
      show Returns _ (if _ then _ else _)
      split
      next => exact returns_fail _
      next fits =>
        refine returns_bind (returns_readExact.mono fun data length => ?_)
        refine returns_bind (returns_readExact.mono fun crlf _ => ?_)
        show Returns _ (if _ then _ else _)
        split
        next => exact returns_fail _
        next =>
          refine ih ?_
          rw [List.length_append, length.1]
          omega

theorem returns_readBody {rounds status : Nat} {headers : List (String × String)} :
    Returns (fun body => body.length ≤ maxBody) (readBody rounds maxBody headOnly status headers) := by
  rw [readBody]
  split
  next => exact .done (Nat.zero_le _)
  split
  next => exact returns_readChunks (Nat.zero_le _)
  split
  next len _ =>
    split
    next => exact returns_fail _
    next m _ =>
      refine returns_readExact.mono fun data length => ?_
      exact Nat.le_trans (Nat.le_of_eq length.1) length.2
  next => exact .ask fun body valid => .done valid

theorem returns_readResponse {rounds : Nat} :
    Returns (fun r => r.body.length ≤ maxBody ∧ headerSize r.headers ≤ maxHeaderBytes) (readResponse rounds maxBody headOnly) := by
  rw [readResponse]
  refine returns_bind (.ask fun bytes _ => .done ?_)
  refine returns_bind (returns_ofExcept _ fun status _ => ?_)
  refine returns_bind ((returns_readHeaders (Nat.zero_le _)).mono fun headers most => ?_)
  refine returns_bind (returns_readBody.mono fun body length => .done ⟨length, ?_⟩)
  rw [Nat.zero_add] at most
  exact most

/-- The status line of what is read ends within its limit, where it may not be beyond that. -/
theorem statusLine_within (tight : ∀ o ∈ asks maxBody headOnly broken stream, ¬ Loose 8192 o.1 o.2)
    (ok : whole maxBody headOnly broken stream = .ok r) :
    ∃ i, Wire.positionOf Interact.Reader.crlf stream = some i ∧ i ≤ maxHeaderBytes := by
  obtain ⟨next, shape⟩ : ∃ next, readResponse (stream.length + 1) maxBody headOnly = .ask (.line maxHeaderBytes earlyStatus) next :=
    ⟨_, rfl⟩
  rw [asks, shape, asked] at tight
  rw [whole, shape, onStream] at ok
  have first := tight (_, stream) List.mem_cons_self
  cases served : Interact.Reader.streamLine lineTooLong broken 8192 maxHeaderBytes earlyStatus stream with
  | error e =>
    rw [show Interact.Reader.serveStream lineTooLong broken 8192 (.line maxHeaderBytes earlyStatus) stream = .error e from served] at ok
    cases ok
  | ok taken =>
    rw [Interact.Reader.streamLine] at served
    split at served
    next i found =>
      split at served
      next wide => exact ⟨i, found, Nat.le_of_not_lt fun far => first ⟨_, _, i, rfl, found, Nat.lt_succ_of_lt far, wide⟩⟩
      next => cases served
    next => cases served

theorem overflow_iff : whole maxBody headOnly broken stream = .error .overflow ↔
    ∃ o ∈ asks maxBody headOnly broken stream, ∃ a b bound, o.1 = .sum a b bound ∧ bound ≤ a + b := by
  rw [whole, Interact.Reader.onStream_error_iff, asks]
  exact ⟨fun ⟨o, mem, fails⟩ => ⟨o, mem, Interact.Reader.serveStream_overflow_iff.mp fails⟩,
    fun ⟨o, mem, sum⟩ => ⟨o, mem, Interact.Reader.serveStream_overflow_iff.mpr sum⟩⟩

/-- What is read depends on the bytes alone, within the limits and without an overflow, exactly when no line that is asked for is
loose (or one is refused in the end) and no chunk is declared too great to be added to the body. -/
theorem receive_clear_iff (maxBody : Nat) (headOnly : Bool) (broken : Option HttpError) (stream : Bytes) :
    Uncut maxBody headOnly broken stream ∧ Bounded maxBody headOnly broken stream ∧ NoOverflow maxBody headOnly broken stream ↔
      Clear maxBody headOnly broken stream := by
  constructor
  · rintro ⟨uncut, -, fits⟩
    refine ⟨(uncut_iff.mp uncut).imp_right whole_tooLong_iff.mp, fun o mem a b bound sum => Nat.lt_of_not_le fun beyond => ?_⟩
    obtain ⟨reads, cut, lucky⟩ := Interact.Reader.run_lucky lineTooLong broken (by decide : 0 < 8192)
      (readResponse (stream.length + 1) maxBody headOnly) stream
    refine fits reads cut ?_
    rw [receive_eq cut, lucky]
    exact overflow_iff.mpr ⟨o, mem, a, b, bound, sum, beyond⟩
  · rintro ⟨lines, sums⟩
    have lines := lines.imp_right whole_tooLong_iff.mpr
    have each {reads : List Bytes} (cut : Segmented 8192 reads stream) :
        receive maxBody headOnly broken reads = whole maxBody headOnly broken stream := by
      rw [receive_eq cut]
      exact run_steady (by decide) lines cut
    refine ⟨uncut_iff.mpr lines, fun reads r cut ok => ?_, fun reads cut overflow => ?_⟩
    · rw [each cut] at ok
      obtain ⟨body, headers⟩ := returns_readResponse.onStream ok
      refine ⟨body, headers, ?_⟩
      rcases lines with tight | refused
      · exact statusLine_within tight ok
      · rw [refused] at ok
        cases ok
    · rw [each cut] at overflow
      obtain ⟨o, mem, a, b, bound, sum, beyond⟩ := overflow_iff.mp overflow
      exact absurd (sums o mem a b bound sum) (Nat.not_lt.mpr beyond)

end

/-! ## A loose line -/

/-- One chunk, whose size line is longer than its limit. -/
def looseResponse : Bytes :=
  Wire.utf8 "HTTP/1.1 200\r\nTransfer-Encoding:chunked\r\n\r\n1;" ++ List.replicate 63 97 ++ Wire.utf8 "\r\nx\r\n0\r\n\r\n"

set_option maxRecDepth 4096 in
/-- In one read it is a response, and byte by byte it is refused. -/
theorem loose_line_cut : ¬ ∀ maxBody headOnly broken stream,
    Uncut maxBody headOnly broken stream ∧ Bounded maxBody headOnly broken stream ∧ NoOverflow maxBody headOnly broken stream := by
  intro each
  have same := (each 100 false none looseResponse).1 [looseResponse] (Wire.singly looseResponse)
    (.one (by decide) (by decide)) (Wire.singly_segmented (by decide) _)
  have taken : (receive 100 false none [looseResponse]).toOption.map (·.body) = some [120] := by decide
  have refused : (receive 100 false none (Wire.singly looseResponse)).toOption.map (·.body) = none := by decide
  rw [same, refused] at taken
  cases taken

end Harpoon.Docker.Http
