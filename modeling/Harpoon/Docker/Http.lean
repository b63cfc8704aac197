import Harpoon.Desktop.Router
import Harpoon.Docker.Probe
import Harpoon.Interact.Reader
import Harpoon.Wire.Utf8

/-!
# The client of Docker's socket

How a response is read (`read_response`, `http.rs`): the status line, the headers, and a body that is framed by its length, by
chunks, or by the end of the connection. A sum of lengths that does not fit into a `usize` is a fault.
-/

namespace Harpoon.Docker.Http

open Desktop (trim)
open Deploy.Envvars (debugStr)
open Interact (Fault Program ReaderOp ReaderSig)
open Wire (Bytes)

def maxHeaderBytes : Nat := 16 * 1024

/-- How long a line with the size of a chunk may be. -/
def maxSizeLine : Nat := 64

/-- The greatest `usize`. -/
def usizeMax : Nat := 0xFFFFFFFFFFFFFFFF

structure Response where
  status : Nat
  headers : List (String × String)
  body : Bytes
  deriving DecidableEq, Repr

abbrev Reading (α : Type) := Program (ReaderSig HttpError) α

def lineTooLong : HttpError := .malformed "line too long"

def fail {α : Type} (e : HttpError) : Reading α := .ask (.fail e) fun none => nomatch none

/-- What a line ends with when the connection does: the error of the connection, or that it was closed. -/
def earlyLine (broken : Option HttpError) (_ : Bytes) : HttpError :=
  broken.getD (.disconnected "connection closed inside a line")

/-- The same for the first line, of which nothing may have come. -/
def earlyStatus (broken : Option HttpError) (there : Bytes) : HttpError :=
  match earlyLine broken there with
  | .disconnected m => .disconnected (if there = [] then "closed before sending any response" else m)
  | e => e

def earlyBody (n : Nat) (broken : Option HttpError) (there : Bytes) : HttpError :=
  broken.getD (.disconnected s!"body ended after {there.length} of {n} bytes")

def textOf (bytes : Bytes) : String := String.ofList (Wire.lossy bytes)

def readLine (max : Nat) : Reading String := .ask (.line max earlyLine) fun bytes => .done (textOf bytes)

def readStatusLine : Reading String := .ask (.line maxHeaderBytes earlyStatus) fun bytes => .done (textOf bytes)

/-- Exactly `n` bytes, if that is not more than `max`. -/
def readExact (n max : Nat) : Reading Bytes := if max < n then fail (.tooLarge max) else .ask (.exact n (earlyBody n)) .done

/-- A sum of lengths. -/
def add (a b : Nat) : Reading Nat := .ask (.sum a b (usizeMax + 1)) .done

def isVersion (v : String) : Bool := v = "HTTP/1.1" || v = "HTTP/1.0"

def statusCode (code : String) : Option Nat := (Wire.parseUnsigned 10 0xFFFF code).filter fun c => 100 ≤ c && c < 600

/-- The status that a status line has. -/
def parseStatus (line : String) : Except HttpError Nat :=
  if isVersion ((Wire.fields ' ' line).getD 0 "") then
    match statusCode ((Wire.fields ' ' line).getD 1 "") with
    | some status => .ok status
    | none => .error (.malformed s!"bad status code in {debugStr line}")
  else .error (.malformed s!"bad status line {debugStr line}")

def ofExcept {α : Type} : Except HttpError α → Reading α
  | .ok a => .done a
  | .error e => fail e

/-- The headers up to an empty line, given how many bytes they had so far. Every line has a byte at least, so that as many rounds as
there may be bytes, and one more, are enough. -/
def readHeaders : Nat → Nat → Reading (List (String × String))
  | 0, _ => fail (.malformed "headers too large")
  | n + 1, bytes => do
    let line ← readLine maxHeaderBytes
    if line = "" then return []
    let bytes := bytes + line.utf8ByteSize
    if maxHeaderBytes < bytes then fail (.malformed "headers too large")
    else
      match Wire.splitOnce ':' line with
      | none => fail (.malformed s!"bad header line {debugStr line}")
      | some (k, v) => return (trim k, trim v) :: (← readHeaders n bytes)

/-- The first header with the name. -/
def header (headers : List (String × String)) (name : String) : Option String :=
  (headers.find? fun kv => eqIgnoreCase kv.1 name).map (·.2)

/-- Trailers up to an empty line. Every line takes two bytes at least, so that as many rounds as there are bytes are enough. -/
def readTrailers : Nat → Reading Unit
  | 0 => fail (earlyLine none [])
  | n + 1 => do
    let line ← readLine maxHeaderBytes
    if line = "" then return ()
    readTrailers n

/-- The size that a size line has, in front of its extensions. -/
def chunkSize (line : String) : Except HttpError Nat :=
  match Wire.parseUnsigned 16 usizeMax (trim ((Wire.fields ';' line).headD "")) with
  | some size => .ok size
  | none => .error (.malformed s!"bad chunk size {debugStr line}")

/-- A body in chunks, after those that were read. Every chunk has a byte at least, so that as many rounds as there may be bytes, and
one more, are enough. -/
def readChunks (rounds maxBody : Nat) : Nat → Bytes → Reading Bytes
  | 0, _ => fail (.tooLarge maxBody)
  | n + 1, body => do
    let line ← readLine maxSizeLine
    let size ← ofExcept (chunkSize line)
    if size = 0 then
      readTrailers rounds
      return body
    let total ← add body.length size
    if maxBody < total then fail (.tooLarge maxBody)
    else
      let data ← readExact size maxBody
      let crlf ← readExact 2 2
      if crlf ≠ Interact.Reader.crlf then fail (.malformed "chunk not terminated by CRLF")
      else readChunks rounds maxBody n (body ++ data)

def isChunked (headers : List (String × String)) : Bool :=
  (header headers "Transfer-Encoding").any fun v => Git.containsText "chunked" (Git.lowered v)

def hasNoBody (headOnly : Bool) (status : Nat) : Bool := headOnly || status = 204 || status = 304 || (100 ≤ status && status < 200)

def readBody (rounds maxBody : Nat) (headOnly : Bool) (status : Nat) (headers : List (String × String)) : Reading Bytes :=
  if hasNoBody headOnly status then return []
  else if isChunked headers then readChunks rounds maxBody (maxBody + 1) []
  else
    match header headers "Content-Length" with
    | some len =>
      match Wire.parseUnsigned 10 usizeMax len with
      | none => fail (.malformed s!"bad Content-Length {debugStr len}")
      | some n => readExact n maxBody
    -- No framing: the body runs to the end of the connection.
    | none => .ask (.toEnd maxBody (.tooLarge maxBody)) .done

def readResponse (rounds maxBody : Nat) (headOnly : Bool) : Reading Response := do
  let line ← readStatusLine
  let status ← ofExcept (parseStatus line)
  let headers ← readHeaders (maxHeaderBytes + 1) 0
  let body ← readBody rounds maxBody headOnly status headers
  return { status, headers, body }

/-- A response from the reads of a connection, of at most 8192 bytes each, that is closed then or breaks with an error. -/
def receive (maxBody : Nat) (headOnly : Bool) (broken : Option HttpError) (reads : List Bytes) : Except (Fault HttpError) Response :=
  Interact.Reader.run lineTooLong broken (readResponse (reads.flatten.length + 1) maxBody headOnly) [] reads

end Harpoon.Docker.Http
