/-!
# The bounded, redacting log

Output passes through a `Redactor` before any of it is stored, and what is stored is bounded as a
head and a tail (`logs.rs`). A secret may straddle two chunks, so the end of a chunk that could be
the start of a secret is held back until the next chunk decides it; when the redaction step fails the
raw text is withheld.

Text is a list of characters here. The source cuts strings only at character boundaries, so its byte
offsets are positions in the list; the size limits still count the bytes of UTF-8.
-/

namespace Harpoon.Deploy

abbrev Text := List Char

/-- The bytes of a text in UTF-8. -/
def Text.size (t : Text) : Nat := t.foldl (fun bytes c => bytes + c.utf8Size) 0

/-! ## The redactor -/

structure Redactor where
  /-- Each secret and its label, longest first. -/
  secrets : List (Text × String)
  /-- Every scan fails. -/
  fail : Bool
  deriving DecidableEq, Repr

/-- A match, or a union of overlapping matches: where it starts, where it stops, and its labels. -/
structure Span where
  start : Nat
  stop : Nat
  names : List String
  deriving DecidableEq, Repr

namespace Redactor

def none : Redactor := ⟨[], false⟩

/-- Longer values first, values of one length in their order. -/
def sortsBefore (a b : Text × String) : Bool :=
  Text.size b.1 < Text.size a.1 ||
    (Text.size a.1 = Text.size b.1 && !decide (String.ofList b.1 < String.ofList a.1))

/-- Without the values that repeat the one before them. -/
def dedupFrom (last : Option Text) : List (Text × String) → List (Text × String)
  | [] => []
  | s :: rest => if last = some s.1 then dedupFrom last rest else s :: dedupFrom (some s.1) rest

/-- The redactor of named values. Empty values are left out: they would match everywhere. -/
def new (secrets : List (String × String)) : Redactor :=
  let values := (secrets.filter fun s => s.2 ≠ "").map fun s => (s.2.toList, s.1)
  ⟨dedupFrom .none (values.mergeSort sortsBefore), false⟩

/-- Every match in `rest`, which is at position `i`. -/
def spansFrom (secrets : List (Text × String)) (i : Nat) : Text → List Span
  | [] => []
  | c :: rest =>
    secrets.filterMap (fun (secret, name) =>
      if secret.isPrefixOf (c :: rest) then some ⟨i, i + secret.length, [name]⟩ else .none)
      ++ spansFrom secrets (i + 1) rest

/-- Add one match to the merged spans, the last of which comes first. A secret inside the last span
is not named; one that extends it is. -/
def merge : List Span → Span → List Span
  | [], s => [s]
  | m :: ms, s =>
    if s.start < m.stop then
      if s.stop > m.stop then
        { m with stop := s.stop, names := m.names ++ s.names.filter fun n => !m.names.contains n } :: ms
      else m :: ms
    else s :: m :: ms

/-- The first position whose remaining text is a proper prefix of some secret. -/
def heldFrom (secrets : List (Text × String)) (i : Nat) : Text → Option Nat
  | [] => .none
  | c :: rest =>
    if secrets.any fun (secret, _) =>
        secret.length > (c :: rest).length && (c :: rest).isPrefixOf secret then some i
    else heldFrom secrets (i + 1) rest

def marker (names : List String) : Text :=
  let joined := String.intercalate "+" names
  s!"[REDACTED:{joined}]".toList

/-- Mask the spans that start before `cut`: the masked text, how far the buffer is used up, and how
many spans were masked. -/
def mask (buf : Text) (cut : Nat) : List Span → Nat → Text × Nat × Nat
  | [], done => ((buf.drop done).take (cut - done), max cut done, 0)
  | s :: ss, done =>
    if s.start ≥ cut then ((buf.drop done).take (cut - done), max cut done, 0)
    else
      let (out, used, n) := mask buf cut ss s.stop
      ((buf.drop done).take (s.start - done) ++ marker s.names ++ out, used, n + 1)

/-- One step over a stream: the text that can be shown with the number of masked spans, and the text
held back for the next step. With `finish` nothing is held back. -/
def scan (r : Redactor) (pending chunk : Text) (finish : Bool) : Except String ((Text × Nat) × Text) :=
  if r.fail then .error "forced failure"
  else
    let buf := pending ++ chunk
    if r.secrets.isEmpty then .ok ((buf, 0), [])
    else
      let merged := ((spansFrom r.secrets 0 buf).foldl merge []).reverse
      let cut :=
        if finish then buf.length
        else merged.foldl (fun cut s => if s.start < cut ∧ cut < s.stop then s.start else cut)
          ((heldFrom r.secrets 0 buf).getD buf.length)
      let (out, used, n) := mask buf cut merged 0
      .ok ((out, n), buf.drop used)

/-- Redact a whole text. A text that cannot be redacted is withheld whole. -/
def apply (r : Redactor) (text : String) : String × Nat :=
  match r.scan [] text.toList true with
  | .ok ((out, n), _) => (String.ofList out, n)
  | .error _ => ("[withheld: the redaction step failed]", 0)

end Redactor

/-! ## The sink -/

structure LogLimits where
  headBytes : Nat
  tailBytes : Nat
  deriving DecidableEq, Repr

/-- 1 MB in total. -/
def LogLimits.default : LogLimits := ⟨256 * 1024, 768 * 1024⟩

structure LogSummary where
  linesSeen : Nat
  bytesKept : Nat
  linesDropped : Nat
  bytesDropped : Nat
  redactions : Nat
  /-- The redaction step failed: everything from that point was withheld, not stored. -/
  withheld : Bool
  deriving DecidableEq, Repr

def LogSummary.truncated (s : LogSummary) : Bool := 0 < s.linesDropped

/-- A stored line longer than this is split. -/
def maxStoredLine : Nat := 16 * 1024

def withheldLine : String :=
  "[output withheld: the redaction step failed, so the raw text was not stored]"

structure LogSink where
  limits : LogLimits
  redactor : Redactor
  /-- Raw text held back because it may be the start of a secret. -/
  pending : Text
  /-- Redacted text of the line being assembled. -/
  line : Text
  head : List Text
  headBytes : Nat
  tail : List Text
  tailBytes : Nat
  summary : LogSummary
  deriving DecidableEq, Repr

/-- What a sink holds at a point in time. -/
structure LogCapture where
  text : String
  summary : LogSummary
  deriving DecidableEq, Repr

namespace LogSink

def new (limits : LogLimits) (redactor : Redactor) : LogSink where
  limits := limits
  redactor := redactor
  pending := []
  line := []
  head := []
  headBytes := 0
  tail := []
  tailBytes := 0
  summary := ⟨0, 0, 0, 0, 0, false⟩

/-- Redact a message that is not a log line with the same rules. -/
def redact (s : LogSink) (text : String) : String := (s.redactor.apply text).1

def withhold (s : LogSink) : LogSink :=
  { s with summary := { s.summary with withheld := true }, pending := [], line := [] }

/-- Drop lines from the front of the tail until it fits. -/
def dropFront (limit : Nat) : List Text → Nat → LogSummary → List Text × Nat × LogSummary
  | [], bytes, summary => ([], bytes, summary)
  | dropped :: rest, bytes, summary =>
    if bytes > limit then
      let cost := Text.size dropped + 1
      dropFront limit rest (bytes - cost)
        { summary with
          linesDropped := summary.linesDropped + 1
          bytesDropped := summary.bytesDropped + cost }
    else (dropped :: rest, bytes, summary)

def store (s : LogSink) (clean : Text) : LogSink :=
  let s := { s with summary := { s.summary with linesSeen := s.summary.linesSeen + 1 } }
  let cost := Text.size clean + 1
  if s.headBytes + cost ≤ s.limits.headBytes ∧ s.tail.isEmpty then
    { s with headBytes := s.headBytes + cost, head := s.head ++ [clean] }
  else
    let (tail, tailBytes, summary) :=
      dropFront s.limits.tailBytes (s.tail ++ [clean]) (s.tailBytes + cost) s.summary
    { s with tail, tailBytes, summary }

/-- The complete lines of a text, and what is left after the last line break. -/
def completeLines : Text → List Text × Text
  | [] => ([], [])
  | c :: rest =>
    let (lines, last) := completeLines rest
    if c = '\n' then ([] :: lines, last)
    else
      match lines with
      | [] => ([], c :: last)
      | l :: ls => ((c :: l) :: ls, last)

/-- The longest start of a text that is at most `room` bytes, and the rest. -/
def splitAt (room : Nat) : Text → Text × Text
  | [] => ([], [])
  | c :: rest =>
    if c.utf8Size ≤ room then
      let (front, back) := splitAt (room - c.utf8Size) rest
      (c :: front, back)
    else ([], c :: rest)

/-- Pieces of at most `maxStoredLine` bytes while the text is longer than that. A piece is never
empty, so the length of the text is enough steps. -/
def splitLong : Nat → Text → List Text × Text
  | 0, text => ([], text)
  | n + 1, text =>
    if Text.size text > maxStoredLine then
      let (front, back) := splitAt maxStoredLine text
      let (pieces, last) := splitLong n back
      (front :: pieces, last)
    else ([], text)

/-- Redacted text arrives here; whole lines are stored, the rest waits for its line break. -/
def absorb (s : LogSink) (safe : Text) : LogSink :=
  let (lines, rest) := completeLines (s.line ++ safe)
  let (pieces, last) := splitLong rest.length rest
  { (lines ++ pieces).foldl store s with line := last }

/-- Feed raw output in any chunking. -/
def pushChunk (s : LogSink) (chunk : String) : LogSink :=
  if s.summary.withheld then s
  else
    match s.redactor.scan s.pending chunk.toList false with
    | .ok ((safe, n), pending) =>
      { s with pending, summary := { s.summary with redactions := s.summary.redactions + n } }.absorb safe
    | .error _ => s.withhold

/-- One complete line: trailing line breaks are dropped, one is added. -/
def pushLine (s : LogSink) (line : String) : LogSink :=
  let trimmed := (line.toList.reverse.dropWhile fun c => c = '\r' ∨ c = '\n').reverse
  (s.pushChunk (String.ofList trimmed)).pushChunk "\n"

def pushText (s : LogSink) (text : String) : LogSink :=
  let (lines, last) := completeLines text.toList
  (if last.isEmpty then lines else lines ++ [last]).foldl (fun s l => s.pushLine (String.ofList l)) s

/-- The sink with everything that is still held back flushed. -/
def flush (s : LogSink) : LogSink :=
  if s.summary.withheld then s
  else
    match s.redactor.scan s.pending [] true with
    | .ok ((safe, n), pending) =>
      let s := { s with pending, summary := { s.summary with redactions := s.summary.redactions + n } }.absorb safe
      if s.line.isEmpty then s else { s with line := [] }.store s.line
    | .error _ => s.withhold

def capture (s : LogSink) : LogCapture :=
  let view := s.flush
  let lines (ls : List Text) : Text := ls.flatMap fun l => l ++ ['\n']
  let cutNote : Text :=
    if view.summary.truncated then
      s!"[… {view.summary.linesDropped} lines ({view.summary.bytesDropped} bytes) truncated by Harpoon …]\n".toList
    else []
  let withheld : Text := if view.summary.withheld then withheldLine.toList ++ ['\n'] else []
  { text := String.ofList (lines view.head ++ cutNote ++ lines view.tail ++ withheld)
    summary := { view.summary with bytesKept := view.headBytes + view.tailBytes } }

end LogSink

end Harpoon.Deploy
