import Harpoon.Desktop.Router
import Harpoon.Docker.Json
import Harpoon.Git.Watch
import Harpoon.Journal.Git
import Harpoon.Wire.Segments

/-!
# Webhook requests

A request is read from a connection with limits on its head and its body, and a push of GitLab is verified and normalized
(`read_request`, `verify_gitlab` of `webhook.rs`).
-/

namespace Harpoon.Git

open Desktop (crlfLines trim)
open Docker (Json)
open Wire (Bytes positionOf)

/-! ## Requests -/

def maxHead : Nat := 16 * 1024

def maxBody : Nat := 256 * 1024

abbrev Headers := List (String × String)

/-- The value of the first header of the name, in any case. -/
def Headers.get (h : Headers) (name : String) : Option String :=
  (h.find? fun kv => lowered kv.1 = lowered name).map (·.2)

structure Request where
  method : String
  path : String
  headers : Headers
  body : Bytes
  deriving DecidableEq, Repr

/-- What comes behind the bytes that a client sends: it closes the connection, it stays silent until it is too late, or the connection
breaks. -/
inductive Ending where
  | closed
  | late
  | failed (why : String)
  deriving DecidableEq, Repr

def Ending.reject (early : String) : Ending → Reject
  | .closed => .malformed early
  | .late => .timeout
  | .failed why => .malformed s!"read error: {why}"

/-- Where the head ends. -/
def headEnd (buf : Bytes) : Option Nat := positionOf [0x0D, 0x0A, 0x0D, 0x0A] buf

def earlyHead : String := "the connection closed before the request was complete"

def earlyBody : String := "the body is shorter than Content-Length"

/-- Read until the head has ended: where, what was read, and the reads that are left. -/
def readHead (ending : Ending) (buf : Bytes) : List Bytes → Except Reject (Nat × Bytes × List Bytes)
  | [] =>
    match headEnd buf with
    | some i => .ok (i, buf, [])
    | none => if maxHead < buf.length then .error .tooLarge else .error (ending.reject earlyHead)
  | read :: reads =>
    match headEnd buf with
    | some i => .ok (i, buf, read :: reads)
    | none =>
      if maxHead < buf.length then .error .tooLarge
      -- A read of nothing is the end of the stream.
      else if read = [] then .error (Ending.closed.reject earlyHead)
      else readHead ending (buf ++ read) reads

/-- Read until the body is as long as declared. -/
def readBody (ending : Ending) (len : Nat) (body : Bytes) : List Bytes → Except Reject Bytes
  | [] => if body.length < len then .error (ending.reject earlyBody) else .ok body
  | read :: reads =>
    if body.length < len then
      if read = [] then .error (Ending.closed.reject earlyBody)
      else readBody ending len (body ++ read.take (len - body.length)) reads
    else .ok body

def notRequest : Reject := .malformed "not an HTTP/1.x request"

/-- The method and the path of a request line. -/
def parseRequestLine (line : String) : Except Reject (String × String) :=
  let first := Wire.fields ' ' line
  let (method, path, version) := (first.getD 0 "", first.getD 1 "", first.getD 2 "")
  if method = "" ∨ Wire.stripPrefix "/" path = none ∨ Wire.stripPrefix "HTTP/1." version = none then .error notRequest
  else .ok (method, path)

def parseHeader (line : String) : Except Reject (String × String) :=
  match Wire.splitOnce ':' line with
  | some (k, v) => .ok (trim k, trim v)
  | none => .error (.malformed "a malformed header")

/-- The length that the headers declare for the body. -/
def declaredLength (headers : Headers) : Except Reject Nat :=
  if (headers.get "Transfer-Encoding").isSome then .error (.malformed "chunked bodies are not accepted")
  else
    match headers.get "Content-Length" with
    | none => .ok 0
    | some v =>
      match Wire.parseUnsigned 10 0xFFFFFFFFFFFFFFFF v with
      | none => .error (.malformed "a bad Content-Length")
      | some len => if maxBody < len then .error .tooLarge else .ok len

/-- The head of a request: its method, its path, its headers and the length of its body. -/
def parseHead (head : Bytes) : Except Reject (String × String × Headers × Nat) := do
  match Wire.fromUtf8 head with
  | none => throw (.malformed "the headers are not text")
  | some text =>
    let lines := (crlfLines text.toList).map String.ofList
    let (method, path) ← parseRequestLine (lines.headD "")
    let headers ← lines.tail.mapM parseHeader
    let len ← declaredLength headers
    return (method, path, headers, len)

/-- Read one request. -/
def readRequest (ending : Ending) (reads : List Bytes) : Except Reject Request := do
  let (i, buf, reads) ← readHead ending [] reads
  if maxHead < i then throw .tooLarge
  let (method, path, headers, len) ← parseHead (buf.take i)
  let body ← readBody ending len ((buf.drop (i + 4)).take len) reads
  return { method, path, headers, body }

/-! ## Pushes of GitLab -/

def deliveryOk (v : String) : Bool :=
  v ≠ "" && v.utf8ByteSize ≤ 128 &&
    v.toList.all fun c => c.isAlphanum || c = '.' || c = '_' || c = '-' || c = ':'

def zeros (rev : String) : Bool := rev.toList.all (· = '0')

/-- Every byte is looked at, wherever the first difference is. -/
def constantTimeEq (a b : Bytes) : Bool :=
  a.length = b.length && ((a.zip b).foldl (fun acc p => acc ||| (p.1 ^^^ p.2)) 0 : UInt8) = 0

/-- The pushed commit: the one checked out, or the one behind the push. -/
def gitLabCommit (j : Json) : Option String :=
  (((j.get "checkout_sha").bind Json.asStr).filter (· ≠ "")) <|> (j.get "after").bind Json.asStr

/-- The delivery that a push says it is, or else the one of its commit. -/
def gitLabDelivery (h : Headers) (after : String) : Except Reject String :=
  match h.get "X-Gitlab-Event-UUID" with
  | some u => if deliveryOk u then .ok u else .error (.malformed "X-Gitlab-Event-UUID is not usable")
  | none => .ok s!"gitlab:{after}"

def present (why : String) : Option String → Except Reject String
  | some v => .ok v
  | none => .error (.malformed why)

def parseBody (body : Bytes) : Except Reject Json :=
  match Wire.fromUtf8 body with
  | none => .error (.malformed "the body is not UTF-8")
  | some text =>
    match Json.parse text with
    | .ok j => .ok j
    | .error e => .error (.malformed s!"the body is not JSON: {e}")

/-- Verify a delivery of GitLab by its token and normalize it. Nothing is asked for by what is no push, or deletes a branch. -/
def verifyGitLab (token : Bytes) (h : Headers) (body : Bytes) : Except Reject (Option PushEvent) := do
  match h.get "X-Gitlab-Token" with
  | none => throw .badSignature
  | some got => unless constantTimeEq (Wire.utf8 got) token do throw .badSignature
  match h.get "X-Gitlab-Event" with
  | none => throw (.malformed "no X-Gitlab-Event header")
  | some kind => if kind ≠ "Push Hook" then return none
  let j ← parseBody body
  let after ← present "no commit in the push" (gitLabCommit j)
  unless isCommit after do throw (.malformed "the pushed revision is not a commit id")
  if zeros after then return none
  let r ← present "no 'ref'" ((j.get "ref").bind Json.asStr)
  let delivery ← gitLabDelivery h after
  let project := (j.get "project").bind fun p => p.get "git_http_url" <|> p.get "web_url"
  return some ⟨.gitLab, (project.bind Json.asStr).getD "", r, after, delivery⟩

end Harpoon.Git
