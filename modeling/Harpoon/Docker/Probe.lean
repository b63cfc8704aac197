import Harpoon.Docker.Objects
import Harpoon.Deploy.Health

/-!
# The container's probe

One attempt of a health check: is the container still running, the same one as before, and what does it answer
(`probe.rs`)? A response without the container's marker counts only behind the gate, which proves the path to the
container once for each check (`PathGate` in `backend.rs`). What the daemon, the container and the proof answer is up to
the surroundings.
-/

namespace Harpoon.Docker

open Deploy

/-! ## Responses -/

/-- The header names are in lower case, and nothing is around names and values. -/
structure Response where
  status : Nat
  headers : List (String × String)
  body : List UInt8
  deriving DecidableEq, Repr

/-- What a response said about who sent it. -/
inductive MarkedResponse where
  | matched (status : Nat)
  /-- It has no marker header at all. -/
  | unmarked (status : Nat)
  | failed (o : Observation)
  deriving DecidableEq, Repr

namespace ResponseMarker

def describe : ResponseMarker → String
  | .header name _ => s!"header {name}"
  | .bodyContains _ => "body marker"

def needsBody : ResponseMarker → Bool
  | .header _ _ => false
  | .bodyContains _ => true

end ResponseMarker

/-- Equal but for the case of ASCII letters. -/
def eqIgnoreCase (a b : String) : Bool := a.toList.map Char.toLower = b.toList.map Char.toLower

/-- The values of the headers with this name. -/
def Response.values (r : Response) (name : String) : List String :=
  (r.headers.filter fun h => eqIgnoreCase h.1 name).map (·.2)

/-- Does the body contain the text? -/
def containsBytes (text : List UInt8) : List UInt8 → Bool
  | [] => text.isEmpty
  | b :: bs => text.isPrefixOf (b :: bs) || containsBytes text bs

def Response.carries (r : Response) : ResponseMarker → Bool
  | .header name value => value ≠ "" && (r.values name).contains value
  | .bodyContains text => text ≠ "" && containsBytes (Wire.utf8 text) r.body

/-- A response that counts only with the marker, if there is one (`get_expecting`). -/
def expecting : Option ResponseMarker → Except String Response → Observation
  | _, .error e => .connectFailed e
  | none, .ok r => .status r.status
  | some m, .ok r =>
    if r.carries m then .status r.status
    else .connectFailed s!"HTTP {r.status} response did not carry this container's deployment marker ({m.describe}), so Harpoon cannot prove it came from the container it started (it may come from a different listener). Update and restart the Harpoon engine (it must publish the guest address it discovered), or have the application echo that header with the value of its HARPOON_DEPLOYMENT_MARKER environment variable"

/-- A response without the marker header is told from one with another (`get_marked`). -/
def markedResponse : ResponseMarker → Except String Response → MarkedResponse
  | .header name value, .ok r =>
    let seen := r.values name
    if seen.isEmpty then .unmarked r.status
    else if value ≠ "" && seen.all (· = value) then .matched r.status
    else .failed (.connectFailed s!"HTTP {r.status} response carried a different {name} than this container's; it comes from another listener or a stale one")
  | .header _ _, .error e => .failed (.connectFailed e)
  | .bodyContains text, answer =>
    match expecting (some (.bodyContains text)) answer with
    | .status s => .matched s
    | other => .failed other

/-! ## The route -/

/-- How a connection to a published port reaches the container. -/
inductive GuestRoute where
  | guestAddress
  | guestLoopbackRelay
  deriving DecidableEq, Repr

def routeBy (p : Published) : Option GuestRoute :=
  if p.hostIp = "" ∨ p.hostIp = "0.0.0.0" ∨ p.hostIp = "::" then some .guestAddress
  else if p.hostIp = "127.0.0.1" then some .guestLoopbackRelay
  else none

/-- The route that all of them have. -/
def commonRoute (found : Option GuestRoute) : List Published → Option GuestRoute
  | [] => found
  | p :: ps =>
    match routeBy p with
    | none => none
    | some r => if found.any (· ≠ r) then none else commonRoute (some r) ps

/-- The route that Docker's report of a container port implies. -/
def routeOf (published : List Published) (containerPort : UInt16) : Option GuestRoute :=
  commonRoute none (published.filter fun p => p.proto = "tcp" && p.containerPort = containerPort)

/-! ## One attempt -/

/-- A container as it is inspected during a check. -/
structure Inspected extends ContainerInfo where
  exitCode : Option Int
  deriving DecidableEq, Repr

/-- Every fact of the identity must be known: what Docker did not report cannot be compared. -/
def ContainerBaseline.of (c : ContainerInfo) : Option ContainerBaseline :=
  if c.running && c.id ≠ "" && c.imageId ≠ "" && c.startedAt ≠ "" then
    some ⟨c.id, c.imageId, c.startedAt, c.restartCount⟩
  else none

/-- What a check reaches: the clock, the daemon, the container (asked for a head, for a body), the proof of a route. -/
structure Outside (ω : Type) where
  now : ω → Nat
  inspect : ω → Except ApiError (Option Inspected) × ω
  fetch : Bool → Bool → ω → Except String Response × ω
  prove : GuestRoute → ω → Except String Unit × ω
  wait : Nat → ω → ω

/-- What is remembered from attempt to attempt. -/
structure Cells where
  /-- A response without the marker was accepted. -/
  usedUnmarked : Bool
  /-- The container's identity, from the first attempt at which it was known. -/
  baseline : Option ContainerBaseline
  /-- Why the container changed, if it did. -/
  changed : Option String
  /-- The path was proven. -/
  proven : Bool
  deriving DecidableEq, Repr

def Cells.new : Cells := ⟨false, none, none, false⟩

/-- What one attempt was told, and what it made of it. -/
structure Probed where
  found : Except ApiError (Option Inspected)
  answer : Option (Except String Response)
  /-- What the proof of the path said, if it was asked. -/
  proof : Option (Except String Unit)
  attempt : Attempt

section

variable {ω : Type} (o : Outside ω) (check : Check) (containerPort : UInt16)

/-- Prove the path now, from Docker's current report of the container. -/
def proveNow (s : ω) : Except String Unit × ω :=
  match o.inspect s with
  | (.error e, s) => (.error s!"could not inspect the container: {e.display}", s)
  | (.ok none, s) => (.error "the container no longer exists", s)
  | (.ok (some info), s) =>
    if !info.running then (.error "the container is not running", s)
    else
      match verifyMapping info.toContainerInfo containerPort check.port with
      | some m => (.error m, s)
      | none =>
        match routeOf info.published containerPort with
        | none => (.error "Docker does not report a single route for the published port", s)
        | some route => o.prove route s

/-- An attempt on a container that runs: what was observed, what the container answered, what the proof said. -/
structure Exchange (ω : Type) where
  observation : Observation
  answer : Option (Except String Response)
  proof : Option (Except String Unit)
  cells : Cells
  outside : ω

/-- A 2xx response without the marker counts when the identity is known and the path is proven. -/
def acceptUnmarked (status : Nat) (answer : Except String Response) (cells : Cells) (s : ω) : Exchange ω :=
  if cells.baseline.isNone then
    ⟨.connectFailed "Docker did not report this container's image and start time, so a response without the deployment marker cannot be attributed to it",
      some answer, none, cells, s⟩
  else if cells.proven then ⟨.status status, some answer, none, { cells with usedUnmarked := true }, s⟩
  else
    match proveNow o check containerPort s with
    | (.ok (), s) => ⟨.status status, some answer, some (.ok ()), { cells with proven := true, usedUnmarked := true }, s⟩
    | (.error why, s) => ⟨.connectFailed why, some answer, some (.error why), cells, s⟩

/-- Ask the container. -/
def observe (cells : Cells) (s : ω) : Exchange ω :=
  match check.marker, check.gated with
  | some m, true =>
    let (answer, s) := o.fetch true m.needsBody s
    match markedResponse m answer with
    | .matched status => ⟨.status status, some answer, none, cells, s⟩
    | .unmarked status =>
      if 200 ≤ status && status < 300 then acceptUnmarked o check containerPort status answer cells s
      else ⟨.status status, some answer, none, cells, s⟩
    | .failed observation => ⟨observation, some answer, none, cells, s⟩
  | marker, _ =>
    let (answer, s) := o.fetch marker.isSome (marker.any (·.needsBody)) s
    ⟨expecting marker answer, some answer, none, cells, s⟩

/-- The identity of a container that runs: it is taken when it is known at first, and may not differ later. -/
def Cells.meet (cells : Cells) (c : Inspected) : Except String Cells :=
  if check.gated then
    match cells.baseline with
    | some b =>
      match b.differs c.toContainerInfo with
      | some why => .error why
      | none => .ok cells
    | none => .ok { cells with baseline := ContainerBaseline.of c.toContainerInfo }
  else .ok cells

/-- One attempt (`attempt` of the `ContainerProbe`). -/
def probe (atMs : Nat) (cells : Cells) (s : ω) : Probed × Cells × ω :=
  match o.inspect s with
  | (.ok (some c), s) =>
    if c.running then
      match cells.meet check c with
      | .error why => (⟨.ok (some c), none, none, ⟨atMs, .connectFailed why, true⟩⟩, { cells with changed := some why }, s)
      | .ok cells =>
        let seen := observe o check containerPort cells s
        (⟨.ok (some c), seen.answer, seen.proof, ⟨atMs, seen.observation, true⟩⟩, seen.cells, seen.outside)
    else (⟨.ok (some c), none, none, ⟨atMs, .containerExited c.exitCode, false⟩⟩, cells, s)
  | (.ok none, s) => (⟨.ok none, none, none, ⟨atMs, .containerExited none, false⟩⟩, cells, s)
  | (.error e, s) =>
    -- It cannot be told whether it runs; the failure never counts as a success.
    (⟨.error e, none, none, ⟨atMs, .connectFailed s!"could not inspect the container: {e.display}", true⟩⟩, cells, s)

/-! ## The loop -/

/-- The surroundings of the loop, with the cells and what every attempt was told. -/
structure Probing (ω : Type) where
  outside : ω
  cells : Cells
  log : List Probed

def probing : HealthWorld (Probing ω) where
  now s := o.now s.outside
  attempt atMs s :=
    let (p, cells, outside) := probe o check containerPort atMs s.cells s.outside
    (p.attempt, ⟨outside, cells, s.log ++ [p]⟩)
  wait ms s := { s with outside := o.wait ms s.outside }

/-- What the loop of probes sees, and what each of its attempts was told; `none` when so many attempts were not enough. -/
def watch (fuel : Nat) (s : ω) : Option (Watched × List Probed) :=
  (runHealth (probing o check containerPort) check.spec check.target fuel ⟨s, .new, []⟩).map fun (ev, s) =>
    (⟨ev.attempts, ev.verdict, ev.consecutiveReached, ev.elapsedMs, s.cells.usedUnmarked, s.cells.baseline,
      s.cells.changed⟩, s.log)

end

end Harpoon.Docker
