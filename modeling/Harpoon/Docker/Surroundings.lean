import Harpoon.Deploy.Ports
import Harpoon.Docker.Api

/-!
# What the backend asks

The backend reaches the step it serves through its `StepIo`, and everything else through the operations
of this file: the daemon's socket, the clock, randomness, the host's ports, the source tree, Buildx, and
the loop of health probes. Each is answered as the surroundings like.
-/

namespace Harpoon.Docker

open Interact Deploy

/-! ## The daemon -/

/-- The methods of `DockerApi`. -/
inductive ApiOp where
  | ping
  | imageInspect (reference : String)
  | containerInspect (id : String)
  | listContainers
  /-- One entry for each tag: id, tag, labels. -/
  | listImages
  /-- The host ports of a container's bindings; none if it has none or vanished. -/
  | configuredHostPorts (id : String)
  | createContainer (name : String) (spec : CreateSpec)
  | startContainer (id : String)
  /-- `true`: stopped, or stopped already; `false`: no such container. -/
  | stopContainer (id : String) (graceSecs : Nat)
  /-- Never by force, and never with volumes. `false`: gone already. -/
  | removeContainer (id : String)
  /-- Parent layers are never deleted with it. -/
  | removeImage (id : String)
  | logs (id : String) (tail maxBytes : Nat)
  deriving DecidableEq, Repr

abbrev ApiOp.Value : ApiOp → Type
  | .ping | .startContainer _ => Unit
  | .imageInspect _ => Option ImageInfo
  | .containerInspect _ => Option ContainerInfo
  | .listContainers => List ContainerSummary
  | .listImages => List (String × String × Labels)
  | .configuredHostPorts _ => List UInt16
  | .createContainer _ _ => CreateOutcome
  | .stopContainer _ _ | .removeContainer _ | .removeImage _ => Bool
  | .logs _ _ _ => LogText

/-! ## The source tree and Buildx -/

/-- A source tree that was found inside the project folder. -/
structure Source where
  context : String
  dockerfileText : String
  /-- What is said of rules of the ignore file that are not interpreted. -/
  ignoreNotes : List String
  deriving DecidableEq, Repr

/-- A private copy of the build context. -/
structure Snapshot where
  dir : String
  files : Nat
  bytes : Nat
  skipped : List String
  deriving DecidableEq, Repr

structure BuildRequest where
  context : String
  tag : String
  labels : Labels
  nonce : String
  target : Option String
  buildArgs : List (String × String)
  /-- Each secret's id and the file that holds its value. -/
  secrets : List (String × String)
  deriving DecidableEq, Repr

inductive BuildRunError where
  | spawn (message : String)
  | timeout
  | failed (exit : Option Int)
  deriving DecidableEq, Repr

/-! ## Health -/

/-- What a response must carry to count as coming from the container. -/
inductive ResponseMarker where
  | header (name value : String)
  | bodyContains (text : String)
  deriving DecidableEq, Repr

/-- What must stay the same, for the whole check, about the container being probed. -/
structure ContainerBaseline where
  id : String
  imageId : String
  startedAt : String
  restartCount : Nat
  deriving DecidableEq, Repr

/-- Why a container is not the one the baseline was taken from, if it is not. -/
def ContainerBaseline.differs (b : ContainerBaseline) (c : ContainerInfo) : Option String :=
  if c.id ≠ b.id then some "the container was replaced while it was being checked"
  else if c.imageId ≠ b.imageId then some "the container's image changed while it was being checked"
  else if c.startedAt ≠ b.startedAt ∨ c.restartCount ≠ b.restartCount then
    some "the container restarted while it was being checked"
  else none

/-- What a health check is run with. -/
structure Check where
  spec : HealthSpec
  target : String
  containerId : String
  port : UInt16
  marker : Option ResponseMarker
  /-- May a response without the marker count once the path to the container is proven? -/
  gated : Bool
  deriving DecidableEq, Repr

/-- What the loop of probes saw. -/
structure Watched where
  attempts : List Attempt
  verdict : Verdict
  /-- Consecutive successes: at the end of a healthy check, at best of another. -/
  reached : UInt8
  elapsedMs : Nat
  usedUnmarked : Bool
  baseline : Option ContainerBaseline
  /-- Why the container changed, if it did. -/
  changed : Option String
  deriving DecidableEq, Repr

/-! ## Operations -/

inductive HostOp where
  /-- Ask the daemon, within so many nanoseconds. -/
  | api (op : ApiOp) (left : Nat)
  /-- Nanoseconds since the step's budget began to run. -/
  | elapsed
  /-- Sixteen random bytes. -/
  | random
  | isListening (port : UInt16)
  /-- Resolve the context and the Dockerfile inside the project folder, and read them. -/
  | confine
  /-- Bytes of the build context, up to a cap. -/
  | contextSize (max : Nat)
  /-- Free bytes where the build runs. -/
  | freeBytes
  /-- Free bytes in the guest. -/
  | guestFreeBytes
  | createScratch
  | snapshot (nonce : String)
  | removeSnapshot (s : Snapshot)
  /-- The text of the copied Dockerfile. -/
  | readDockerfile (s : Snapshot)
  | iidfileExists (nonce : String)
  /-- Remove the secret files that an earlier build left. -/
  | sweepSecrets
  /-- Write the build secrets to files of their own. -/
  | secretFiles (nonce : String) (secrets : List (String × String))
  | runBuild (req : BuildRequest) (left : Nat)
  | dropSecretFiles
  /-- Read the file in which Buildx reports the image's id, and remove it. -/
  | takeIidfile (nonce : String)
  /-- The loop of `run_health` with the container's probe. It only reads. -/
  | runHealth (check : Check)
  /-- Prove the path to the container from Docker's current report of it. -/
  | provePath (containerId : String) (containerPort hostPort : UInt16)
  /-- The listener on the host's port must be the forwarder's. -/
  | verifyForwarder (port : UInt16)
  deriving DecidableEq, Repr

abbrev HostOp.Answer : HostOp → Type
  | .api op _ => Except ApiError op.Value
  | .elapsed => Nat
  | .random => Except String (List UInt8)
  | .isListening _ | .iidfileExists _ => Bool
  | .confine => Except String Source
  | .contextSize _ | .freeBytes | .guestFreeBytes => Except String Nat
  | .createScratch | .provePath _ _ _ | .verifyForwarder _ => Except String Unit
  | .snapshot _ => Except String Snapshot
  | .removeSnapshot _ | .sweepSecrets | .dropSecretFiles => Unit
  | .readDockerfile _ | .takeIidfile _ => Except String String
  | .secretFiles _ _ => Except String (List (String × String))
  | .runBuild _ _ => List String × Except BuildRunError Unit
  | .runHealth _ => Watched

/-- Use the `StepIo`, or ask the surroundings. -/
inductive BackendOp where
  | io (op : IoOp)
  | host (op : HostOp)
  deriving DecidableEq, Repr

abbrev BackendOp.Answer : BackendOp → Type
  | .io op => op.Answer
  | .host op => op.Answer

abbrev BackendSig : Signature := ⟨BackendOp, BackendOp.Answer⟩

/-! ## The backend on a `StepIo` -/

/-- What the engine's surroundings and the backend's are asked together. -/
inductive StepOp where
  | engine (op : EngineOp)
  | host (op : HostOp)
  deriving DecidableEq

abbrev StepOp.Answer : StepOp → Type
  | .engine op => op.Answer
  | .host op => op.Answer

abbrev StepSig : Signature := ⟨StepOp, StepOp.Answer⟩

/-- An operation of the engine's, asked among both. -/
def onEngine (op : EngineOp) : Program StepSig op.Answer := Program.perform (S := StepSig) (.engine op)

/-- A backend's work on the `StepIo` it was handed. -/
def serve {α ε : Type} : Program BackendSig α → Process StepSig StepIo ε α
  | .done value => pure value
  | .ask (.io op) next => do
    let answer ← Process.via onEngine (StepIo.answer op)
    serve (next answer)
  | .ask (.host op) next => do
    let answer ← Process.perform (S := StepSig) (.host op)
    serve (next answer)

end Harpoon.Docker
