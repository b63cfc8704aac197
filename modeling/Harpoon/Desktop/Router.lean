import Harpoon.Deploy.Serving
import Harpoon.Docker.Dockerfile
import Harpoon.Keyed.Table

/-!
# The application router

The desktop listens on a loopback port, reads the head of a request, takes the application from its `Host`
field and pipes the connection to the port on which that application is served (`app_router.rs`, `route.rs`).
-/

namespace Harpoon.Deploy

open Git (lowered)

/-- Without the dots at its end. -/
def trimEndDots (s : String) : String := String.ofList (s.toList.reverse.dropWhile (· = '.')).reverse

/-- The value of a `Host` field, without its port. -/
def withoutPort (hostHeader : String) : String :=
  match Wire.rsplitOnce ':' hostHeader with
  | some (h, p) => if p.toList.all Char.isDigit then h else hostHeader
  | none => hostHeader

/-- The route that the value of a `Host` field names. -/
def RouteTable.resolve (t : RouteTable) (hostHeader : String) : Option Route :=
  t.get (lowered (trimEndDots (withoutPort hostHeader)))

end Harpoon.Deploy

namespace Harpoon.Desktop

open Deploy (Route RouteTable)
open Docker.Dockerfile (trimChars)
open Git (lowered)
open Wire (Bytes)

/-! ## The head of a request -/

def headLimit : Nat := 16 * 1024

/-- Is there the end of a head? -/
def endsHead : Bytes → Bool
  | [] => false
  | b :: bs => [0x0D, 0x0A, 0x0D, 0x0A].isPrefixOf (b :: bs) || endsHead bs

/-- Read until the head has ended. A read gives bytes (none at the end of the stream), or it fails or comes too
late. What came behind the head with its last bytes is part of what was read. -/
def readHead (head : Bytes) : List (Option Bytes) → Option Bytes
  | [] => if endsHead head then some head else none
  | read :: reads =>
    if endsHead head then some head
    else if headLimit < head.length then none
    else
      match read with
      | some (b :: bs) => readHead (head ++ (b :: bs)) reads
      | _ => none

/-- The reads that are left then. -/
def unread (head : Bytes) : List (Option Bytes) → List (Option Bytes)
  | [] => []
  | read :: reads =>
    if endsHead head then read :: reads
    else
      match read with
      | some (b :: bs) => unread (head ++ (b :: bs)) reads
      | _ => []

/-- All that comes until the stream ends or breaks. -/
def copied : List (Option Bytes) → Bytes
  | some (b :: bs) :: reads => (b :: bs) ++ copied reads
  | _ => []

/-- The lines of a text in which CRLF ends a line. -/
def crlfLines : List Char → List (List Char)
  | [] => [[]]
  | '\r' :: '\n' :: cs => [] :: crlfLines cs
  | c :: cs =>
    match crlfLines cs with
    | [] => [[c]]
    | l :: ls => (c :: l) :: ls

theorem crlfLines_free {cs : List Char} (free : '\r' ∉ cs) : crlfLines cs = [cs] := by
  induction cs with
  | nil => rfl
  | cons c cs ih =>
    rw [crlfLines, ih fun mem => free (List.mem_cons_of_mem _ mem)]
    rintro _ rfl
    exact absurd List.mem_cons_self free

theorem crlfLines_line {l cs : List Char} (free : '\r' ∉ l) : crlfLines (l ++ '\r' :: '\n' :: cs) = l :: crlfLines cs := by
  induction l with
  | nil => rw [List.nil_append, crlfLines]
  | cons c l ih =>
    rw [List.cons_append, crlfLines, ih fun mem => free (List.mem_cons_of_mem _ mem)]
    rintro _ rfl
    exact absurd List.mem_cons_self free

theorem crlfLines_some (cs : List Char) : crlfLines cs ≠ [] := by
  induction cs using crlfLines.induct with
  | case1 => rw [crlfLines]; exact List.cons_ne_nil _ _
  | case2 cs => rw [crlfLines]; exact List.cons_ne_nil _ _
  | case3 c cs apart none_ ih => exact absurd none_ ih
  | case4 c cs apart l ls lines ih =>
    rw [crlfLines, lines]
    · exact List.cons_ne_nil _ _
    · exact apart

theorem crlfLines_append (as bs : List Char) : crlfLines (as ++ '\r' :: '\n' :: bs) = crlfLines as ++ crlfLines bs := by
  induction as using crlfLines.induct with
  | case1 => rw [List.nil_append, crlfLines]; rfl
  | case2 cs ih => rw [List.cons_append, List.cons_append, crlfLines, ih, crlfLines]; rfl
  | case3 c cs apart none_ ih => exact absurd none_ (crlfLines_some cs)
  | case4 c cs apart l ls lines ih =>
    have apart' : ∀ ds, c = '\r' → cs ++ '\r' :: '\n' :: bs = '\n' :: ds → False := by
      intro ds is same
      cases cs with
      | nil => cases same
      | cons d cs =>
        cases same
        exact apart cs is rfl
    rw [lines] at ih
    rw [List.cons_append, crlfLines, ih, crlfLines, lines]
    · rfl
    · exact apart
    · exact apart'

/-- The lines of the head behind the request line. -/
def headLines (text : String) : List String :=
  (((crlfLines text.toList).drop 1).takeWhile (· ≠ [])).map String.ofList

def trim (s : String) : String := String.ofList (trimChars s.toList)

/-- The `Host` field, after one more line of the head. -/
def hostLine (found : Option String) (l : String) : Except String (Option String) :=
  match Wire.splitOnce ':' l with
  | none => .ok found
  | some (k, v) =>
    if lowered k = "host" then
      if found.isSome then .error "the request has more than one Host header" else .ok (some (trim v))
    else if lowered (trim k) = "host" then .error "malformed Host header"
    else .ok found

/-- The value of the only `Host` field of a head. -/
def hostOf (head : Bytes) : Except String String :=
  match Wire.fromUtf8 head with
  | none => .error "the request head is not valid text"
  | some text => do
    match ← (headLines text).foldlM hostLine none with
    | none => .error "the request has no Host header"
    | some host => .ok host

/-! ## A connection -/

/-- How a connection ends, or where it is piped to and what is written there first. -/
inductive Answer where
  | dropped
  | respond (status message : String)
  | forward (port : UInt16) (head : Bytes)
  deriving DecidableEq, Repr

/-- What the application gets to which the connection is piped. -/
def received (reads : List (Option Bytes)) : Answer → Bytes
  | .forward _ head => head ++ copied (unread [] reads)
  | .dropped | .respond _ _ => []

def notResponding : Answer :=
  .respond "503 Service Unavailable" "The release recorded as serving this application is not responding. It may be stopped or restarting; Harpoon has not routed to anything else."

/-- One look at a table. A port to which no connection can be made is left to `refused`. -/
def attempt (own : UInt16) (connects : UInt16 → Bool) (head : Bytes) (refused : UInt16 → Answer) : Option Route → Answer
  | none => .respond "404 Not Found" "This is not a Harpoon application address."
  | some (.conflict _) =>
    .respond "409 Conflict" "Two applications were assigned this address. Harpoon refuses to guess; neither is routed."
  | some (.idle _) =>
    .respond "503 Service Unavailable" "This application has no running release recorded. Deploy it, or restart it from Harpoon."
  | some (.serving _ port) =>
    -- Never the router itself, which would feed on its own connections.
    if port = own then
      .respond "503 Service Unavailable" "This application's recorded port is the router's own; Harpoon refuses to forward to it."
    else if connects port then .forward port head
    else refused port

def Route.isServingAt (port : UInt16) : Option Route → Bool
  | some (.serving _ p) => p = port
  | _ => false

/-- Serve one connection, given the table, the table that is read again when the port of the first one takes no
connection, and the ports that take one the first and the second time. -/
def serve (own : UInt16) (table again : RouteTable) (connects reconnects : UInt16 → Bool) (reads : List (Option Bytes)) :
    Answer :=
  match readHead [] reads with
  | none => .dropped
  | some head =>
    match hostOf head with
    | .error why => .respond "400 Bad Request" why
    | .ok host =>
      attempt own connects head (fun tried =>
        if Route.isServingAt tried (again.resolve host) then notResponding
        else attempt own reconnects head (fun _ => notResponding) (again.resolve host)) (table.resolve host)

end Harpoon.Desktop

/-!
## The routes of the hostnames

The table as it is built and kept: the applications are gathered under the hostnames they derive, and each hostname gets
its route once (`RouteTable` in `route.rs`). `RouteTable` says of the same input what a hostname finds in it.
-/

namespace Harpoon.Deploy

open Keyed (Table)

/-- The applications that derive one hostname, each with its port; there is at least one. -/
structure Claims where
  host : String
  first : ApplicationId × Option UInt16
  others : List (ApplicationId × Option UInt16)
  deriving DecidableEq, Repr

def Claims.all (cs : Claims) : List (ApplicationId × Option UInt16) := cs.first :: cs.others

/-- One more entry under the hostname, unless the application has one. -/
def Claims.add (c : ApplicationId × Option UInt16) (cs : Claims) : Claims :=
  if cs.all.any (·.1 = c.1) then cs else { cs with others := cs.others ++ [c] }

theorem Claims.host_add (c : ApplicationId × Option UInt16) (cs : Claims) : (cs.add c).host = cs.host := by
  unfold Claims.add
  split <;> rfl

abbrev ByHost := Table Claims.host

def ByHost.claim (t : ByHost) (c : ApplicationId × Option UInt16) : ByHost :=
  match fresh : t.find (hostname c.1) with
  | some _ => t.change (hostname c.1) (Claims.add c) (Claims.host_add c)
  | none => t.push ⟨hostname c.1, c, []⟩ fresh

/-- More than one application is a conflict for all of them. -/
def Claims.route (cs : Claims) : Route :=
  match cs.others with
  | [] => .of cs.first.1 cs.first.2
  | _ => .conflict (cs.all.map (·.1))

structure HostRoute where
  host : String
  route : Route
  deriving DecidableEq, Repr

abbrev Routes := Table HostRoute.host

def Routes.build (apps : List (ApplicationId × Option UInt16)) : Routes :=
  (apps.foldl ByHost.claim Table.empty).map (fun cs : Claims => ⟨cs.host, cs.route⟩) fun _ => rfl

def Routes.get (t : Routes) (host : String) : Option Route := (t.find host).map (·.route)

/-- The name that the value of a `Host` field stands for. -/
def hostOf (hostHeader : String) : String := Git.lowered (trimEndDots (withoutPort hostHeader))

def Routes.resolve (t : Routes) (hostHeader : String) : Option Route := t.get (hostOf hostHeader)

end Harpoon.Deploy
