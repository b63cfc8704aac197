import Harpoon.Deploy.Engine

/-!
# What Docker is asked and answers

The data of the Docker Engine calls the backend makes (`api.rs`). There is no prune, push, pull, exec,
network or volume call. Only what a caller reads of an answer is kept.
-/

namespace Harpoon.Docker

inductive HttpError where
  /-- No such socket, refused, no permission. -/
  | connect (message : String)
  | timeout (message : String)
  | disconnected (message : String)
  | malformed (message : String)
  | tooLarge (bytes : Nat)
  deriving DecidableEq, Repr

def HttpError.display : HttpError → String
  | .connect m => s!"cannot connect to the Docker socket: {m}"
  | .timeout m => s!"Docker did not answer in time: {m}"
  | .disconnected m => s!"Docker closed the connection mid-response: {m}"
  | .malformed m => s!"malformed HTTP response from Docker: {m}"
  | .tooLarge n => s!"Docker response body exceeded {n} bytes"

inductive ApiError where
  | transport (e : HttpError)
  /-- Docker answered with an unexpected status. -/
  | status (op : String) (code : Nat) (message : String)
  /-- Docker answered with success, but the body is not what its interface documents. -/
  | malformed (op : String) (detail : String)
  deriving DecidableEq, Repr

namespace ApiError

def isTimeout : ApiError → Bool
  | .transport (.timeout _) => true
  | _ => false

/-- Decided from the status code alone. -/
def isConflict : ApiError → Bool
  | .status _ 409 _ => true
  | _ => false

/-- Docker reports a host port that something else holds. -/
def isPortCollision : ApiError → Bool
  | .status _ _ message =>
    let m := message.toList.map Char.toLower
    Deploy.Run.isInfix "port is already allocated".toList m || Deploy.Run.isInfix "address already in use".toList m
  | _ => false

def display : ApiError → String
  | .transport e => e.display
  | .status op code message => s!"Docker {op} failed with HTTP {code}: {message}"
  | .malformed op detail => s!"Docker {op} returned an unexpected response: {detail}"

end ApiError

abbrev Labels := List (String × String)

structure ImageInfo where
  id : String
  labels : Labels
  tags : List String
  /-- Paths the image declares as volumes, inherited ones included. -/
  volumes : List String
  /-- Registry digests the image is known by. -/
  repoDigests : List String
  deriving DecidableEq, Repr

/-- One published port, as Docker reports it for a running container. -/
structure Published where
  containerPort : UInt16
  proto : String
  hostIp : String
  hostPort : UInt16
  deriving DecidableEq, Repr

structure ContainerInfo where
  id : String
  name : String
  labels : Labels
  running : Bool
  /-- The image the container was created from. -/
  imageId : String
  startedAt : String
  restartCount : Nat
  published : List Published
  deriving DecidableEq, Repr

structure ContainerSummary where
  id : String
  name : String
  labels : Labels
  state : String
  hostPorts : List UInt16
  /-- Empty when Docker did not say. -/
  imageId : String
  deriving DecidableEq, Repr

structure Limits where
  memoryBytes : Int
  nanoCpus : Int
  pids : Int
  deriving DecidableEq, Repr

/-- The body of a create request. -/
structure CreateSpec where
  image : String
  labels : Labels
  env : List String
  containerPort : UInt16
  hostPort : UInt16
  limits : Limits
  deriving DecidableEq, Repr

inductive CreateOutcome where
  | created (id : String)
  /-- The name is held by something else. -/
  | nameInUse (why : String)
  deriving DecidableEq, Repr

structure LogText where
  text : String
  truncated : Bool
  deriving DecidableEq, Repr

/-! ## Labels -/

open Deploy (ApplicationId DeploymentId)

/-- Does the object carry the three labels of a deployment of an application? -/
def hasLabels (labels : Labels) (app : ApplicationId) (dep : DeploymentId) : Bool :=
  (Deploy.Labels.forDeployment app dep).all fun l => labels.contains l

/-- A short form of an id. -/
def short (id : String) : String := String.ofList (id.toList.take 12)

end Harpoon.Docker
