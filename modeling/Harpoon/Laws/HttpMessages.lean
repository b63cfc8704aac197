import Harpoon.Laws.Http
import Harpoon.Laws.Router

/-!
# Responses as they are sent

A response is sent with its length, in chunks of any division, with extensions and trailers, or up to the end of the connection. What
is read of it is what was sent, however it arrives; but the line with the size of a chunk has to be shorter than its limit with its
extension, and so has each trailer.
-/

namespace Harpoon.Docker.Http

open Interact (Fault Program ReaderOp ReaderSig)
open Interact.Reader (crlf onStream)
open Wire (Bytes Free Segmented positionOf utf8)

def lineBytes (s : String) : Bytes := utf8 s ++ crlf

/-- A chunk, or the last line of a body in chunks, which has no data. -/
structure Chunk where
  /-- Its size, in hexadecimal. -/
  digits : List Char
  extension : String
  data : Bytes

def Chunk.sizeLine (c : Chunk) : String := String.ofList c.digits ++ c.extension

def Chunk.bytes (c : Chunk) : Bytes := lineBytes c.sizeLine ++ (c.data ++ crlf)

inductive Framing where
  | length
  | chunked (chunks : List Chunk) (last : Chunk) (trailers : List String)
  | close

structure Message where
  version : String
  status : Nat
  reason : String
  /-- The headers in front of the one for the framing, and those behind it. -/
  headers : List (String × String)
  more : List (String × String)
  body : Bytes
  framing : Framing

def fieldLine (field : String × String) : String := field.1 ++ ": " ++ field.2

namespace Message

def statusLine (m : Message) : String := m.version ++ " " ++ m.status.repr ++ " " ++ m.reason

/-- The header that says how the body is framed. -/
def framingHeaders (m : Message) : List (String × String) :=
  match m.framing with
  | .length => [("Content-Length", m.body.length.repr)]
  | .chunked _ _ _ => [("Transfer-Encoding", "chunked")]
  | .close => []

def fields (m : Message) : List (String × String) := m.headers ++ (m.framingHeaders ++ m.more)

def framedBody (m : Message) : Bytes :=
  match m.framing with
  | .length | .close => m.body
  | .chunked chunks last trailers =>
    chunks.flatMap Chunk.bytes ++ (lineBytes last.sizeLine ++ (trailers.flatMap lineBytes ++ lineBytes ""))

def bytes (m : Message) : Bytes :=
  lineBytes m.statusLine ++ ((m.fields.flatMap fun f => lineBytes (fieldLine f)) ++ (lineBytes "" ++ m.framedBody))

end Message

/-! ## Well-formed messages -/

structure FormedField (field : String × String) : Prop where
  name : field.1 ≠ "" ∧ Free ':' field.1 ∧ Free '\r' field.1
  value : Free '\r' field.2
  trimmed : Desktop.trim field.1 = field.1 ∧ Desktop.trim field.2 = field.2
  /-- How the body is framed is not said by it. -/
  other : eqIgnoreCase field.1 "Transfer-Encoding" = false ∧ eqIgnoreCase field.1 "Content-Length" = false

structure FormedChunk (c : Chunk) : Prop where
  size : c.digits ≠ [] ∧ Wire.readDigits 16 0 c.digits = some c.data.length
  extension : Free '\r' c.extension ∧ (c.extension = "" ∨ ∃ more, c.extension = ";" ++ more)

/-- The chunks are the body, and only the last line is of size zero. -/
def FormedFraming (body : Bytes) : Framing → Prop
  | .length | .close => True
  | .chunked chunks last trailers =>
    (∀ c ∈ chunks, FormedChunk c ∧ c.data ≠ []) ∧ chunks.flatMap (·.data) = body ∧ FormedChunk last ∧ last.data = [] ∧
      ∀ t ∈ trailers, t ≠ "" ∧ Free '\r' t

structure Message.Formed (m : Message) : Prop where
  version : m.version = "HTTP/1.1" ∨ m.version = "HTTP/1.0"
  status : 100 ≤ m.status ∧ m.status < 600
  reason : Free '\r' m.reason
  headers : ∀ f ∈ m.headers ++ m.more, FormedField f
  framing : FormedFraming m.body m.framing
  /-- A response to which no body belongs has none. -/
  body : hasNoBody false m.status = true → m.body = []

/-- How many bytes the lines of the headers are. -/
def fieldsSize (fields : List (String × String)) : Nat := fields.foldr (fun f n => (fieldLine f).utf8ByteSize + n) 0

/-- The status line, each header and all headers, and the body are within the limits. -/
structure Message.Within (m : Message) (maxBody : Nat) : Prop where
  statusLine : m.statusLine.utf8ByteSize < maxHeaderBytes
  header : ∀ f ∈ m.fields, (fieldLine f).utf8ByteSize < maxHeaderBytes
  headers : fieldsSize m.fields ≤ maxHeaderBytes
  body : m.body.length ≤ maxBody
  limit : maxBody ≤ usizeMax

/-- The lines of a framing in chunks are within their limits. -/
def ShortLines : Framing → Prop
  | .length | .close => True
  | .chunked chunks last trailers =>
    (∀ c ∈ last :: chunks, c.sizeLine.utf8ByteSize < maxSizeLine) ∧ ∀ t ∈ trailers, t.utf8ByteSize < maxHeaderBytes

/-! ## Reading what was written -/

/-- From a stream that begins with the bytes, the program reads the value and leaves what is behind them; no line is beyond its
limit. -/
def Reads {α : Type} (p : Reading α) (front : Bytes) (a : α) : Prop :=
  ∀ (β : Type) (f : α → Reading β) (rest : Bytes),
    onStream lineTooLong none 1 (p >>= f) (front ++ rest) = onStream lineTooLong none 1 (f a) rest

section

variable {α β : Type} {p : Reading α} {g : α → Reading β} {front front' : Bytes} {a : α} {b : β} {s : String} {max n : Nat}

theorem reads_pure : Reads (pure a) [] a := fun _ _ _ => rfl

theorem reads_bind (first : Reads p front a) (second : Reads (g a) front' b) : Reads (p >>= g) (front ++ front') b := by
  intro γ f rest
  rw [bind_assoc, List.append_assoc, first, second]

/-- Nothing more is taken. -/
theorem reads_map (first : Reads p front a) (second : Reads (g a) [] b) : Reads (p >>= g) front b := by
  have both := reads_bind first second
  rw [List.append_nil] at both
  exact both

theorem utf8_length (s : String) : (utf8 s).length = s.utf8ByteSize := rfl

theorem utf8_free (free : Free '\r' s) : (0x0D : UInt8) ∉ utf8 s := by
  rw [Wire.utf8_eq]
  intro mem
  obtain ⟨c, inside, byte⟩ := List.mem_flatMap.mp mem
  have same : '\r' = c := Char.toNat_inj.mp (Wire.mem_utf8EncodeChar byte (by decide)).symm
  exact free (same ▸ inside)

theorem textOf_utf8 (s : String) : textOf (utf8 s) = s := by
  rw [textOf, Wire.lossy_of_settled (by rw [Wire.decodeFrom_utf8]), Wire.decodeFrom_utf8, String.ofList_toList]

theorem position_line (free : Free '\r' s) (rest : Bytes) : positionOf crlf (lineBytes s ++ rest) = some s.utf8ByteSize := by
  have past : positionOf [0x0D, 0x0A] (utf8 s ++ [0x0D, 0x0A] ++ rest) = some (utf8 s).length :=
    Wire.positionOf_past (utf8_free free)
  exact past

theorem serve_line {early : Option HttpError → Bytes → HttpError} (free : Free '\r' s) (short : s.utf8ByteSize < max)
    (rest : Bytes) :
    Interact.Reader.serveStream lineTooLong none 1 (.line max early) (lineBytes s ++ rest) = .ok (utf8 s, rest) := by
  show Interact.Reader.streamLine _ _ _ _ _ _ = _
  rw [Interact.Reader.streamLine, position_line free]
  dsimp only
  rw [if_pos (by omega), lineBytes, List.append_assoc, ← utf8_length, List.take_left, ← List.drop_drop, List.drop_left]
  rfl

theorem reads_line (free : Free '\r' s) (short : s.utf8ByteSize < max) : Reads (readLine max) (lineBytes s) s := by
  intro γ f rest
  have shape : readLine max >>= f = .ask (.line max earlyLine) fun bytes => f (textOf bytes) := rfl
  rw [shape, Interact.Reader.onStream_ask (serve_line free short rest), textOf_utf8]

theorem reads_statusLine (free : Free '\r' s) (short : s.utf8ByteSize < maxHeaderBytes) : Reads readStatusLine (lineBytes s) s := by
  intro γ f rest
  have shape : readStatusLine >>= f = .ask (.line maxHeaderBytes earlyStatus) fun bytes => f (textOf bytes) := rfl
  rw [shape, Interact.Reader.onStream_ask (serve_line free short rest), textOf_utf8]

theorem reads_exact (data : Bytes) (within : data.length ≤ max) : Reads (readExact data.length max) data data := by
  intro γ f rest
  have shape : readExact data.length max >>= f = .ask (.exact data.length (earlyBody data.length)) f := by
    rw [readExact, if_neg (Nat.not_lt.mpr within)]
    rfl
  have served : Interact.Reader.serveStream lineTooLong none 1 (.exact data.length (earlyBody data.length)) (data ++ rest) =
      .ok (data, rest) := by
    show Interact.Reader.streamExact _ _ _ _ = _
    rw [Interact.Reader.streamExact, if_pos (by rw [List.length_append]; omega), List.take_left, List.drop_left]
  rw [shape, Interact.Reader.onStream_ask served]

theorem reads_add {a b : Nat} (fits : a + b ≤ usizeMax) : Reads (add a b) [] (a + b) := by
  intro γ f rest
  have shape : add a b >>= f = .ask (.sum a b (usizeMax + 1)) f := rfl
  have served : Interact.Reader.serveStream lineTooLong none 1 (.sum a b (usizeMax + 1)) rest = .ok (a + b, rest) :=
    if_pos (Nat.lt_succ_of_le fits)
  rw [shape, List.nil_append, Interact.Reader.onStream_ask served]

/-! ## The head -/

theorem parseStatus_line {m : Message} (formed : m.Formed) : parseStatus m.statusLine = .ok m.status := by
  have version : Free ' ' m.version ∧ (m.version = "HTTP/1.1" ∨ m.version = "HTTP/1.0") :=
    ⟨by rcases formed.version with is | is <;> rw [is] <;> decide, formed.version⟩
  have digits : Free ' ' m.status.repr := Wire.repr_free (by decide)
  have fields : Wire.fields ' ' m.statusLine = m.version :: m.status.repr :: Wire.fields ' ' m.reason := by
    have split : m.statusLine =
        m.version ++ (String.singleton ' ' ++ (m.status.repr ++ (String.singleton ' ' ++ m.reason))) := by
      rw [Message.statusLine, String.append_assoc, String.append_assoc, String.append_assoc]
      rfl
    rw [split, Wire.fields_before version.1, Wire.fields_before digits]
  have code : statusCode m.status.repr = some m.status := by
    rw [statusCode, Wire.parseUnsigned_repr (Nat.le_of_lt (Nat.lt_trans formed.status.2 (by decide)))]
    refine Option.filter_some_pos ?_
    rw [Bool.and_eq_true, decide_eq_true_eq, decide_eq_true_eq]
    exact formed.status
  have known : isVersion m.version = true := by rcases version.2 with is | is <;> rw [is] <;> decide
  rw [parseStatus, fields, List.getD_cons_zero, if_pos known, List.getD_cons_succ, List.getD_cons_zero, code]

theorem trim_field {v : String} (trimmed : Desktop.trim v = v) : Desktop.trim (" " ++ v) = v := by
  have blank : (" " ++ v).toList = ' ' :: v.toList := String.toList_append
  rw [Desktop.trim, Dockerfile.trimChars, blank, List.dropWhile_cons_of_pos (by decide)]
  exact trimmed

theorem reads_headers {fields : List (String × String)} {bytes : Nat} (formed : ∀ f ∈ fields, f.1 ≠ "" ∧ Free ':' f.1 ∧
    Free '\r' f.1 ∧ Free '\r' f.2 ∧ Desktop.trim f.1 = f.1 ∧ Desktop.trim f.2 = f.2)
    (short : ∀ f ∈ fields, (fieldLine f).utf8ByteSize < maxHeaderBytes) (within : bytes + fieldsSize fields ≤ maxHeaderBytes)
    (rounds : maxHeaderBytes < n + bytes) :
    Reads (readHeaders n bytes) ((fields.flatMap fun f => lineBytes (fieldLine f)) ++ lineBytes "") fields := by
  induction fields generalizing n bytes with
  | nil =>
    obtain ⟨n, rfl⟩ : ∃ m, n = m + 1 := ⟨n - 1, by
      have : bytes ≤ maxHeaderBytes := Nat.le_trans (Nat.le_add_right ..) within
      omega⟩
    rw [readHeaders]
    exact reads_map (reads_line (s := "") (by decide) (by decide)) reads_pure
  | cons f fs ih =>
    obtain ⟨some_, colon, free, free', trimmed, trimmed'⟩ := formed f List.mem_cons_self
    have size : fieldsSize (f :: fs) = (fieldLine f).utf8ByteSize + fieldsSize fs := rfl
    have long : 1 ≤ (fieldLine f).utf8ByteSize := by
      rw [fieldLine, String.utf8ByteSize_append, String.utf8ByteSize_append]
      have : (": " : String).utf8ByteSize = 2 := by decide
      omega
    obtain ⟨n, rfl⟩ : ∃ m, n = m + 1 := ⟨n - 1, by omega⟩
    have filled : fieldLine f ≠ "" := by
      intro empty
      rw [empty] at long
      exact absurd long (by decide)
    have split : Wire.splitOnce ':' (fieldLine f) = some (f.1, " " ++ f.2) := by
      have parts : fieldLine f = f.1 ++ (String.singleton ':' ++ (" " ++ f.2)) := by
        have colon : String.singleton ':' ++ (" " ++ f.2) = ": " ++ f.2 := by
          rw [← String.append_assoc]
          rfl
        rw [colon, fieldLine, String.append_assoc]
      exact Wire.splitOnce_iff.mpr ⟨parts, colon⟩
    have free_ : Free '\r' (fieldLine f) := by
      rw [fieldLine, Free, String.toList_append, String.toList_append]
      intro mem
      rcases List.mem_append.mp mem with mem | mem
      · rcases List.mem_append.mp mem with mem | mem
        · exact free mem
        · exact absurd mem (by decide)
      · exact free' mem
    have rest : Reads (readHeaders n (bytes + (fieldLine f).utf8ByteSize))
        ((fs.flatMap fun f => lineBytes (fieldLine f)) ++ lineBytes "") fs :=
      ih (fun g mem => formed g (List.mem_cons_of_mem _ mem)) (fun g mem => short g (List.mem_cons_of_mem _ mem)) (by omega)
        (by omega)
    rw [List.flatMap_cons, List.append_assoc, readHeaders]
    refine reads_bind (reads_line free_ (short f List.mem_cons_self)) ?_
    show Reads (if _ then _ else _) _ _
    rw [if_neg filled]
    show Reads (if _ then _ else _) _ _
    rw [if_neg (by omega), split]
    show Reads (readHeaders n _ >>= fun more => pure ((Desktop.trim f.1, Desktop.trim (" " ++ f.2)) :: more)) _ _
    rw [trimmed, trim_field trimmed']
    exact reads_map rest reads_pure

/-! ## Bodies in chunks -/

theorem digit_plain {c : Char} {d : Nat} (value : Wire.digitValue c = some d) :
    c ≠ ';' ∧ c ≠ '\r' ∧ Git.isWhitespace c = false := by
  have code : (48 ≤ c.toNat ∧ c.toNat ≤ 57) ∨ (97 ≤ c.toNat ∧ c.toNat ≤ 102) ∨ (65 ≤ c.toNat ∧ c.toNat ≤ 70) := by
    have := Wire.digitValue_cases value
    omega
  refine ⟨?_, ?_, ?_⟩
  · rintro rfl
    revert code
    decide
  · rintro rfl
    revert code
    decide
  · simp only [Git.isWhitespace, Bool.or_eq_false_iff, Bool.and_eq_false_iff, decide_eq_false_iff_not]
    omega

theorem trim_plain {cs : List Char} (plain : ∀ c ∈ cs, Git.isWhitespace c = false) :
    Desktop.trim (String.ofList cs) = String.ofList cs := by
  have kept : Dockerfile.trimChars ([] ++ (cs ++ [])) = cs :=
    Desktop.trimChars_between (fun x mem => absurd mem List.not_mem_nil) (fun x mem => absurd mem List.not_mem_nil) plain
  rw [List.nil_append, List.append_nil] at kept
  rw [Desktop.trim, String.toList_ofList, kept]

theorem trim_repr (n : Nat) : Desktop.trim n.repr = n.repr := by
  have read : Wire.readDigits 10 0 n.repr.toList = some n := by
    rw [Nat.toList_repr]
    exact Wire.readDigits_toDigits (by decide) (by decide)
  rw [← String.ofList_toList (s := n.repr)]
  refine trim_plain fun c mem => ?_
  obtain ⟨d, value⟩ := Wire.digits_of_readDigits read c mem
  exact (digit_plain value).2.2

theorem FormedChunk.free {c : Chunk} (formed : FormedChunk c) : Free '\r' c.sizeLine := by
  rw [Chunk.sizeLine, Free, String.toList_append, String.toList_ofList]
  intro mem
  rcases List.mem_append.mp mem with mem | mem
  · obtain ⟨d, value⟩ := Wire.digits_of_readDigits formed.size.2 _ mem
    exact (digit_plain value).2.1 rfl
  · exact formed.extension.1 mem

theorem FormedChunk.filled {c : Chunk} (formed : FormedChunk c) : c.sizeLine ≠ "" := by
  intro empty
  have chars : c.digits ++ c.extension.toList = [] := by
    rw [← String.toList_ofList (l := c.digits), ← String.toList_append]
    exact congrArg String.toList empty
  exact formed.size.1 (List.append_eq_nil_iff.mp chars).1

/-- The size is in front of the extension. -/
theorem chunkSize_line {c : Chunk} (formed : FormedChunk c) (fits : c.data.length ≤ usizeMax) :
    chunkSize c.sizeLine = .ok c.data.length := by
  have plain : ∀ x ∈ c.digits, x ≠ ';' ∧ x ≠ '\r' ∧ Git.isWhitespace x = false := by
    intro x mem
    obtain ⟨d, value⟩ := Wire.digits_of_readDigits formed.size.2 x mem
    exact digit_plain value
  have free : Free ';' (String.ofList c.digits) := by
    rw [Free, String.toList_ofList]
    exact fun mem => (plain _ mem).1 rfl
  have front : (Wire.fields ';' c.sizeLine).headD "" = String.ofList c.digits := by
    rw [Chunk.sizeLine]
    rcases formed.extension.2 with none_ | ⟨more, some_⟩
    · rw [none_, String.append_empty, Wire.fields_of_free free]
      rfl
    · rw [some_, show (";" : String) = String.singleton ';' from rfl, Wire.fields_before free]
      rfl
  have trimmed : Desktop.trim (String.ofList c.digits) = String.ofList c.digits := trim_plain fun x mem => (plain x mem).2.2
  have some_ : String.ofList c.digits ≠ "" := by
    intro empty
    refine formed.size.1 ?_
    rw [← String.toList_ofList (l := c.digits), empty]
    rfl
  have read : Wire.parseUnsigned 16 usizeMax (String.ofList c.digits) = some c.data.length :=
    Wire.parseUnsigned_of_readDigits (by rw [String.toList_ofList]; exact formed.size.2) some_ fits
  rw [chunkSize, front, trimmed, read]

theorem reads_trailers {trailers : List String} (formed : ∀ t ∈ trailers, t ≠ "" ∧ Free '\r' t)
    (short : ∀ t ∈ trailers, t.utf8ByteSize < maxHeaderBytes) (rounds : trailers.length < n) :
    Reads (readTrailers n) (trailers.flatMap lineBytes ++ lineBytes "") () := by
  induction trailers generalizing n with
  | nil =>
    obtain ⟨n, rfl⟩ : ∃ m, n = m + 1 := ⟨n - 1, by omega⟩
    rw [readTrailers]
    exact reads_map (reads_line (s := "") (by decide) (by decide)) reads_pure
  | cons t ts ih =>
    obtain ⟨some_, free⟩ := formed t List.mem_cons_self
    rw [List.length_cons] at rounds
    obtain ⟨n, rfl⟩ : ∃ m, n = m + 1 := ⟨n - 1, by omega⟩
    rw [readTrailers, List.flatMap_cons, List.append_assoc]
    refine reads_bind (reads_line free (short t List.mem_cons_self)) ?_
    show Reads (if _ then _ else _) _ _
    rw [if_neg some_]
    exact ih (fun u mem => formed u (List.mem_cons_of_mem _ mem)) (fun u mem => short u (List.mem_cons_of_mem _ mem)) (by omega)

theorem reads_chunks {chunks : List Chunk} {last : Chunk} {trailers : List String} {rounds maxBody : Nat} {body : Bytes}
    (formed : ∀ c ∈ chunks, FormedChunk c ∧ c.data ≠ []) (formed' : FormedChunk last ∧ last.data = [])
    (plain : ∀ t ∈ trailers, t ≠ "" ∧ Free '\r' t) (short : ∀ c ∈ last :: chunks, c.sizeLine.utf8ByteSize < maxSizeLine)
    (short' : ∀ t ∈ trailers, t.utf8ByteSize < maxHeaderBytes) (rounds_ : trailers.length < rounds)
    (within : body.length + (chunks.flatMap (·.data)).length ≤ maxBody) (limit : maxBody ≤ usizeMax)
    (enough : maxBody < n + body.length) :
    Reads (readChunks rounds maxBody n body)
      (chunks.flatMap Chunk.bytes ++ (lineBytes last.sizeLine ++ (trailers.flatMap lineBytes ++ lineBytes "")))
      (body ++ chunks.flatMap (·.data)) := by
  induction chunks generalizing n body with
  | nil =>
    obtain ⟨n, rfl⟩ : ∃ m, n = m + 1 := ⟨n - 1, by
      have : body.length ≤ maxBody := Nat.le_trans (Nat.le_add_right ..) within
      omega⟩
    have size : chunkSize last.sizeLine = .ok 0 := by
      rw [chunkSize_line formed'.1 (by rw [formed'.2]; exact Nat.zero_le _), formed'.2]
      rfl
    rw [readChunks, List.flatMap_nil, List.flatMap_nil, List.nil_append, List.append_nil]
    refine reads_bind (reads_line formed'.1.free (short last List.mem_cons_self)) ?_
    show Reads (ofExcept (chunkSize last.sizeLine) >>= _) _ _
    rw [size]
    show Reads (readTrailers rounds >>= fun _ => pure body) _ _
    exact reads_map (reads_trailers plain short' rounds_) reads_pure
  | cons c cs ih =>
    obtain ⟨chunk, some_⟩ := formed c List.mem_cons_self
    have positive : c.data.length ≠ 0 := fun none_ => some_ (List.length_eq_zero_iff.mp none_)
    rw [List.flatMap_cons, List.length_append] at within
    obtain ⟨n, rfl⟩ : ∃ m, n = m + 1 := ⟨n - 1, by omega⟩
    have size : chunkSize c.sizeLine = .ok c.data.length := chunkSize_line chunk (by omega)
    have rest : Reads (readChunks rounds maxBody n (body ++ c.data))
        (cs.flatMap Chunk.bytes ++ (lineBytes last.sizeLine ++ (trailers.flatMap lineBytes ++ lineBytes "")))
        (body ++ c.data ++ cs.flatMap (·.data)) := by
      refine ih (fun d mem => formed d (List.mem_cons_of_mem _ mem)) (fun d mem => short d ?_) ?_ ?_
      · rcases List.mem_cons.mp mem with rfl | mem
        · exact List.mem_cons_self
        · exact List.mem_cons_of_mem _ (List.mem_cons_of_mem _ mem)
      · rw [List.length_append]
        omega
      · rw [List.length_append]
        omega
    rw [readChunks, List.flatMap_cons, List.flatMap_cons, Chunk.bytes, ← List.append_assoc body, List.append_assoc,
      List.append_assoc, List.append_assoc]
    refine reads_bind (reads_line chunk.free (short c (List.mem_cons_of_mem _ List.mem_cons_self))) ?_
    show Reads (ofExcept (chunkSize c.sizeLine) >>= _) _ _
    rw [size]
    show Reads (if _ then _ else _) _ _
    rw [if_neg positive]
    rw [← List.nil_append (c.data ++ _)]
    refine reads_bind (reads_add (by omega)) ?_
    show Reads (if _ then _ else _) _ _
    rw [if_neg (by omega)]
    refine reads_bind (reads_exact c.data (by omega)) ?_
    refine reads_bind (reads_exact crlf (by decide)) ?_
    show Reads (if _ then _ else _) _ _
    rw [if_neg (fun other => other rfl)]
    exact rest

/-! ## Whole messages -/

theorem header_behind {hs more : List (String × String)} {name : String} (other : ∀ f ∈ hs, eqIgnoreCase f.1 name = false) :
    header (hs ++ more) name = header more name := by
  have none_ : hs.find? (fun kv => eqIgnoreCase kv.1 name) = none := by
    refine List.find?_eq_none.mpr fun f mem => ?_
    rw [other f mem]
    decide
  rw [header, List.find?_append, none_, Option.none_or]
  rfl

theorem header_none {hs : List (String × String)} {name : String} (other : ∀ f ∈ hs, eqIgnoreCase f.1 name = false) :
    header hs name = none := by
  rw [← List.append_nil hs, header_behind other]
  rfl

theorem header_here {k v : String} {more : List (String × String)} {name : String} (same : eqIgnoreCase k name = true) :
    header ((k, v) :: more) name = some v := by
  rw [header, List.find?_cons, same]
  rfl

theorem trailers_length (trailers : List String) : trailers.length ≤ (trailers.flatMap lineBytes).length := by
  induction trailers with
  | nil => exact Nat.le_refl _
  | cons t ts ih =>
    have line : (lineBytes t).length = (utf8 t).length + 2 := List.length_append
    rw [List.flatMap_cons, List.length_append, List.length_cons]
    omega

namespace Message

variable {m : Message} {maxBody rounds : Nat}

theorem Formed.foreign (formed : m.Formed) : ∀ f ∈ m.headers ++ m.more,
    eqIgnoreCase f.1 "Transfer-Encoding" = false ∧ eqIgnoreCase f.1 "Content-Length" = false :=
  fun f mem => (formed.headers f mem).other

/-- The headers in front do not say how the body is framed. -/
theorem Formed.framed (formed : m.Formed) :
    header m.fields "Transfer-Encoding" = header (m.framingHeaders ++ m.more) "Transfer-Encoding" ∧
      header m.fields "Content-Length" = header (m.framingHeaders ++ m.more) "Content-Length" :=
  ⟨header_behind fun f mem => (formed.foreign f (List.mem_append_left _ mem)).1,
    header_behind fun f mem => (formed.foreign f (List.mem_append_left _ mem)).2⟩

/-- What is done with the bytes behind the head. -/
def Body (m : Message) (maxBody rounds : Nat) : Prop :=
  onStream lineTooLong none 1 (readBody rounds maxBody false m.status m.fields >>= fun body => pure ⟨m.status, m.fields, body⟩)
    m.framedBody = .ok (⟨m.status, m.fields, m.body⟩ : Response)

theorem body_length (formed : m.Formed) (within : m.Within maxBody) (some_ : ¬ hasNoBody false m.status = true)
    (kind : m.framing = .length) : m.Body maxBody rounds := by
  have headers : m.framingHeaders = [("Content-Length", m.body.length.repr)] := by rw [framingHeaders, kind]
  have foreign : header (m.framingHeaders ++ m.more) "Transfer-Encoding" = none := by
    refine header_none fun f mem => ?_
    rw [headers] at mem
    rcases List.mem_append.mp mem with mem | mem
    · have name : f.1 = "Content-Length" := congrArg Prod.fst (List.mem_singleton.mp mem)
      rw [name]
      decide
    · exact (formed.foreign f (List.mem_append_right _ mem)).1
  have length : header (m.framingHeaders ++ m.more) "Content-Length" = some m.body.length.repr := by
    rw [headers]
    exact header_here (by decide)
  have reading : readBody rounds maxBody false m.status m.fields = readExact m.body.length maxBody := by
    rw [readBody, if_neg some_, isChunked, formed.framed.1, formed.framed.2, foreign, length, if_neg (by decide)]
    dsimp only
    rw [Wire.parseUnsigned_repr (Nat.le_trans within.body within.limit)]
  have framed : m.framedBody = m.body ++ [] := by rw [framedBody, kind, List.append_nil]
  rw [Body, reading, framed]
  exact reads_exact m.body within.body Response _ []

theorem body_chunked {chunks : List Chunk} {last : Chunk} {trailers : List String} (formed : m.Formed) (within : m.Within maxBody)
    (short : ShortLines m.framing) (rounds_ : m.framedBody.length < rounds) (some_ : ¬ hasNoBody false m.status = true)
    (kind : m.framing = .chunked chunks last trailers) : m.Body maxBody rounds := by
  have framing := formed.framing
  rw [kind] at framing short
  obtain ⟨each, whole, formed', empty, plain⟩ := framing
  have headers : m.framingHeaders = [("Transfer-Encoding", "chunked")] := by rw [framingHeaders, kind]
  have framed : m.framedBody =
      chunks.flatMap Chunk.bytes ++ (lineBytes last.sizeLine ++ (trailers.flatMap lineBytes ++ lineBytes "")) := by
    rw [framedBody, kind]
  have enough : trailers.length < rounds := by
    have := trailers_length trailers
    rw [framed] at rounds_
    simp only [List.length_append] at rounds_
    omega
  have reading : readBody rounds maxBody false m.status m.fields = readChunks rounds maxBody (maxBody + 1) [] := by
    have chunked : Git.containsText "chunked" (Git.lowered "chunked") = true := by decide
    rw [readBody, if_neg some_, isChunked, formed.framed.1, headers, List.singleton_append, header_here (by decide), Option.any_some,
      if_pos chunked]
  have reads : Reads (readChunks rounds maxBody (maxBody + 1) []) m.framedBody m.body := by
    have fits : ([] : Bytes).length + (chunks.flatMap (·.data)).length ≤ maxBody := by
      rw [whole]
      exact Nat.le_trans (Nat.le_of_eq (Nat.zero_add _)) within.body
    rw [framed, ← whole]
    exact reads_chunks each ⟨formed', empty⟩ plain short.1 short.2 enough fits within.limit (Nat.lt_succ_self _)
  rw [Body, reading, ← List.append_nil m.framedBody]
  exact reads Response _ []

theorem body_close (formed : m.Formed) (within : m.Within maxBody) (some_ : ¬ hasNoBody false m.status = true)
    (kind : m.framing = .close) : m.Body maxBody rounds := by
  have headers : m.framingHeaders = [] := by rw [framingHeaders, kind]
  have framed : m.framedBody = m.body := by rw [framedBody, kind]
  have reading : readBody rounds maxBody false m.status m.fields = .ask (.toEnd maxBody (.tooLarge maxBody)) .done := by
    rw [readBody, if_neg some_, isChunked, formed.framed.1, formed.framed.2, headers, List.nil_append,
      header_none fun f mem => (formed.foreign f (List.mem_append_right _ mem)).1,
      header_none fun f mem => (formed.foreign f (List.mem_append_right _ mem)).2]
    rfl
  have served : Interact.Reader.serveStream lineTooLong none 1 (.toEnd maxBody (.tooLarge maxBody)) m.body = .ok (m.body, []) :=
    if_neg (Nat.not_lt.mpr within.body)
  rw [Body, reading, framed]
  exact Interact.Reader.onStream_ask served

theorem body_read (formed : m.Formed) (within : m.Within maxBody) (short : ShortLines m.framing)
    (rounds_ : m.framedBody.length < rounds) : m.Body maxBody rounds := by
  by_cases without : hasNoBody false m.status = true
  · rw [Body, readBody, if_pos without, formed.body without]
    rfl
  · cases kind : m.framing with
    | length => exact body_length formed within without kind
    | chunked chunks last trailers => exact body_chunked formed within short rounds_ without kind
    | close => exact body_close formed within without kind

theorem framing_formed {f : String × String} (mem : f ∈ m.framingHeaders) : f.1 ≠ "" ∧ Free ':' f.1 ∧ Free '\r' f.1 ∧
    Free '\r' f.2 ∧ Desktop.trim f.1 = f.1 ∧ Desktop.trim f.2 = f.2 := by
  rw [framingHeaders] at mem
  cases kind : m.framing with
  | length =>
    rw [kind] at mem
    have name : f.1 = "Content-Length" := congrArg Prod.fst (List.mem_singleton.mp mem)
    have value : f.2 = m.body.length.repr := congrArg Prod.snd (List.mem_singleton.mp mem)
    rw [name, value]
    exact ⟨by decide, by decide, by decide, Wire.repr_free (by decide), by decide, trim_repr _⟩
  | chunked chunks last trailers =>
    rw [kind] at mem
    rw [List.mem_singleton.mp mem]
    decide
  | close =>
    rw [kind] at mem
    exact absurd mem List.not_mem_nil

theorem Formed.fields (formed : m.Formed) : ∀ f ∈ m.fields, f.1 ≠ "" ∧ Free ':' f.1 ∧ Free '\r' f.1 ∧ Free '\r' f.2 ∧
    Desktop.trim f.1 = f.1 ∧ Desktop.trim f.2 = f.2 := by
  intro f mem
  have given (mem : f ∈ m.headers ++ m.more) : f.1 ≠ "" ∧ Free ':' f.1 ∧ Free '\r' f.1 ∧ Free '\r' f.2 ∧
      Desktop.trim f.1 = f.1 ∧ Desktop.trim f.2 = f.2 :=
    have field := formed.headers f mem
    ⟨field.name.1, field.name.2.1, field.name.2.2, field.value, field.trimmed.1, field.trimmed.2⟩
  rcases List.mem_append.mp mem with mem | mem
  · exact given (List.mem_append_left _ mem)
  · rcases List.mem_append.mp mem with mem | mem
    · exact framing_formed mem
    · exact given (List.mem_append_right _ mem)

/-- Byte by byte a message is read as it was sent. -/
theorem onStream_bytes (formed : m.Formed) (within : m.Within maxBody) (short : ShortLines m.framing)
    (rounds_ : m.framedBody.length < rounds) :
    onStream lineTooLong none 1 (readResponse rounds maxBody false) m.bytes = .ok ⟨m.status, m.fields, m.body⟩ := by
  have free : Free '\r' m.statusLine := by
    rw [statusLine, Free, String.toList_append, String.toList_append, String.toList_append, String.toList_append]
    simp only [List.mem_append, not_or]
    refine ⟨⟨⟨⟨?_, by decide⟩, Wire.repr_free (by decide)⟩, by decide⟩, formed.reason⟩
    rcases formed.version with is | is <;> rw [is] <;> decide
  have head : Reads (readHeaders (maxHeaderBytes + 1) 0) ((m.fields.flatMap fun f => lineBytes (fieldLine f)) ++ lineBytes "")
      m.fields :=
    reads_headers formed.fields within.header (by rw [Nat.zero_add]; exact within.headers) (Nat.lt_succ_self _)
  rw [readResponse, bytes, ← List.append_assoc (_ : Bytes) (lineBytes "")]
  refine (reads_statusLine free within.statusLine Response _ _).trans ?_
  rw [parseStatus_line formed]
  refine (head Response _ _).trans ?_
  exact body_read formed within short rounds_

end Message

/-- However a message arrives, what is read is its status, its headers and its body, where the lines of its framing are short. -/
theorem receive_message (m : Message) (maxBody : Nat) (reads : List Bytes) (formed : m.Formed) (within : m.Within maxBody)
    (short : ShortLines m.framing) (cut : Segmented 8192 reads m.bytes) :
    receive maxBody false none reads = .ok ⟨m.status, m.fields, m.body⟩ := by
  have rounds : m.framedBody.length < m.bytes.length + 1 := by
    simp only [Message.bytes, List.length_append]
    omega
  rw [receive_eq cut]
  exact Interact.Reader.run_of_singly (by decide) (Message.onStream_bytes formed within short rounds) cut

end

def sampleChunked (extension : String) : Message :=
  { version := "HTTP/1.1", status := 200, reason := "OK", headers := [("Server", "Docker")], more := [("Date", "today")],
    body := [1, 2, 3],
    framing := .chunked [⟨['2'], extension, [1, 2]⟩, ⟨['0', '1'], "", [3]⟩] ⟨['0'], "", []⟩ ["Trailer: x"] }

theorem sampleChunked_formed {extension : String} (free : Free '\r' extension)
    (begins : extension = "" ∨ ∃ more, extension = ";" ++ more) : (sampleChunked extension).Formed where
  version := .inl rfl
  status := (by decide : 100 ≤ 200 ∧ 200 < 600)
  reason := by show Free '\r' "OK"; decide
  headers f mem := by
    have fields : f = ("Server", "Docker") ∨ f = ("Date", "today") := by simpa [sampleChunked] using mem
    rcases fields with rfl | rfl <;> exact ⟨by decide, by decide, by decide, by decide⟩
  framing := by
    refine ⟨?_, rfl, ⟨by decide, by decide, .inl rfl⟩, rfl, ?_⟩
    · intro c mem
      have chunks : c = ⟨['2'], extension, [1, 2]⟩ ∨ c = ⟨['0', '1'], "", [3]⟩ := by simpa [sampleChunked] using mem
      rcases chunks with rfl | rfl
      · exact ⟨⟨(by decide : ['2'] ≠ [] ∧ Wire.readDigits 16 0 ['2'] = some 2), free, begins⟩, List.cons_ne_nil _ _⟩
      · exact ⟨⟨by decide, by decide, .inl rfl⟩, List.cons_ne_nil _ _⟩
    · intro t mem
      rw [List.mem_singleton.mp mem]
      decide
  body without := absurd without (by decide : ¬ hasNoBody false 200 = true)

theorem sampleChunked_within (extension : String) : (sampleChunked extension).Within 100 where
  statusLine := by show ("HTTP/1.1" ++ " " ++ (200 : Nat).repr ++ " " ++ "OK").utf8ByteSize < _; decide
  header := by
    have fields : (sampleChunked extension).fields = [("Server", "Docker"), ("Transfer-Encoding", "chunked"), ("Date", "today")] :=
      rfl
    rw [fields]
    decide
  headers := by
    have fields : (sampleChunked extension).fields = [("Server", "Docker"), ("Transfer-Encoding", "chunked"), ("Date", "today")] :=
      rfl
    rw [fields]
    decide
  body := by show 3 ≤ 100; decide
  limit := by decide

theorem receive_message_sample :
    receive 100 false none (Wire.singly (sampleChunked ";a=b").bytes) = .ok ⟨200, (sampleChunked ";a=b").fields, [1, 2, 3]⟩ :=
  receive_message (sampleChunked ";a=b") 100 _ (sampleChunked_formed (by decide) (.inr ⟨"a=b", by decide⟩))
    (sampleChunked_within _) (by
      refine ⟨?_, ?_⟩
      · show ∀ c ∈ [_, _, _], _
        decide
      · show ∀ t ∈ [_], _
        decide) (Wire.singly_segmented (by decide) _)

/-- An extension of 70 letters. -/
def longExtension : String := ";" ++ String.ofList (List.replicate 70 'a')

set_option maxRecDepth 8192 in
/-- With a long extension a message is refused when it comes byte by byte. -/
theorem long_extension_refused : ¬ ∀ (m : Message) (maxBody : Nat) (reads : List Bytes), m.Formed → m.Within maxBody →
    Segmented 8192 reads m.bytes → receive maxBody false none reads = .ok ⟨m.status, m.fields, m.body⟩ := by
  intro each
  have read := each (sampleChunked longExtension) 100 (Wire.singly (sampleChunked longExtension).bytes)
    (sampleChunked_formed (by decide) (.inr ⟨_, rfl⟩)) (sampleChunked_within _) (Wire.singly_segmented (by decide) _)
  have refused : (receive 100 false none (Wire.singly (sampleChunked longExtension).bytes)).toOption.map (·.body) = none := by decide
  rw [read] at refused
  cases refused

end Harpoon.Docker.Http
