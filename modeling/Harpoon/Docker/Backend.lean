import Harpoon.Deploy.Envvars
import Harpoon.Docker.Dockerfile
import Harpoon.Docker.Surroundings

/-!
# The Docker backend

`DockerBackend` (`backend.rs`), call by call. Every create is preceded by a durable intent and followed
by a receipt with the id Docker returned; nothing is stopped or removed without being read again by id
and checked against its name and its three labels; the daemon may answer anything, and every object may
change between two calls.
-/

namespace Harpoon.Docker

open Interact Deploy Deploy.Ports

/-! ## Configuration -/

/-- How a health response is tied to the container that gave it. -/
inductive Attribution where
  | off
  /-- Each container gets its own random marker, which a response must carry. -/
  | perContainer
  deriving DecidableEq, Repr

def markerEnv : String := "HARPOON_DEPLOYMENT_MARKER"

def markerHeader : String := "X-Harpoon-Deployment-Marker"

/-- On a container that a restoration made: the deployment whose release it restores. -/
def restoresLabel : String := "io.harpoon.restores"

structure DockerConfig where
  scratchDir : String
  containerPort : UInt16
  health : HealthSpec
  attribution : Attribution
  liveGates : Bool
  healthMarker : Option ResponseMarker
  env : List String
  buildTarget : Option String
  buildArgs : List (String × String)
  buildSecrets : List (String × SecretRef)
  runtimeSecrets : List (String × SecretRef)
  snapshotId : Option String
  buildIdentity : Option String
  limits : Limits
  maxContextBytes : Nat
  minFreeBytes : Nat
  /-- Time for one removal outside a step, in nanoseconds. -/
  cleanupTimeout : Nat
  logTailLines : Nat
  logMaxBytes : Nat
  enableReplacement : Bool
  deriving DecidableEq, Repr

/-- Resolved secret values, in memory only. -/
structure SecretBundle where
  values : List (SecretRef × String)
  deriving DecidableEq, Repr

def SecretBundle.get (b : SecretBundle) (r : SecretRef) : Option String := b.values.lookup r

/-- What a backend is made with. -/
structure DockerBackend where
  cfg : DockerConfig
  secrets : SecretBundle
  /-- A test double answers in place of the applications. -/
  simulated : Bool
  forwarder : Bool
  guestDisk : Bool
  pathProof : Bool
  deriving DecidableEq, Repr

/-- What a backend keeps from call to call. -/
structure State where
  imageTag : Option String
  /-- The verified id of the image this attempt built. Containers are created from it, never from the
  tag. -/
  imageId : Option String
  requiredImages : Option (List String)
  contextBytes : Nat
  /-- The response marker of each container. -/
  markers : List (String × String)
  /-- The image each container was created from. -/
  createdImages : List (String × String)
  /-- The preliminary container and its port. -/
  pre : Option (String × UInt16)
  /-- The application container and its port. -/
  app : Option (String × UInt16)
  replacedFrom : Option UInt16
  /-- Set only while the one restoration attempt runs. -/
  restoring : Option PreviousRelease
  /-- The port that `planRelease` reserved. -/
  plannedLease : Option PortLease
  /-- The target of a rollback: nothing is built, and its retained image is served. -/
  rollback : Option (DeploymentId × ReleaseConfig)
  deriving DecidableEq, Repr

def State.new : State where
  imageTag := none
  imageId := none
  requiredImages := none
  contextBytes := 0
  markers := []
  createdImages := []
  pre := none
  app := none
  replacedFrom := none
  restoring := none
  plannedLease := none
  rollback := none

/-- Make a backend a rollback to the release that `deployment` built. -/
def DockerBackend.withRollback (self : DockerBackend) (deployment : DeploymentId) (pinned : ReleaseConfig) :
    DockerBackend × State :=
  ({ self with
      cfg :=
        { self.cfg with
          containerPort := pinned.containerPort
          health := pinned.health
          limits := ⟨pinned.memoryBytes, pinned.nanoCpus, pinned.pids⟩ } },
    { State.new with rollback := some (deployment, pinned) })

/-- Code of the backend. -/
abbrev Docker (α : Type) := Process BackendSig State StepError α

/-- Use the `StepIo`. -/
def useIo (op : IoOp) : Docker op.Answer := Process.perform (S := BackendSig) (.io op)

/-- Ask the surroundings. -/
def host (op : HostOp) : Docker op.Answer := Process.perform (S := BackendSig) (.host op)

def pushLine (text : String) : Docker Unit := useIo (.pushLine text)

/-! ## Records -/

def intend (key : ResourceKey) (disposition : Disposition) : Docker Intent := do
  let answer ← useIo (.intend key disposition)
  Process.ofExcept id answer

def receipt (intent : Intent) (id : String) : Docker Unit := do
  let answer ← useIo (.receipt intent id)
  Process.ofExcept (fun e => e) answer

def cleanupAttempt (key : ResourceKey) : Docker Unit := do
  let answer ← useIo (.cleanupAttempt key)
  Process.ofExcept id answer

def cleanupResult (key : ResourceKey) (outcome : CleanupOutcome) : Docker Unit := do
  let answer ← useIo (.cleanupResult key outcome)
  Process.ofExcept id answer

/-- Reserve a port. -/
def leasePort (l : PortLease) : Docker Unit := do
  let answer ← useIo (.leasePort l.hostPort)
  let _ ← Process.ofExcept id answer
  return ()

def releaseLease (hostPort : UInt16) : Docker Unit := do
  let answer ← useIo (.releaseLease hostPort)
  Process.ofExcept id answer

/-! ## Errors -/

def require (ok : Bool) (e : StepError) : Docker Unit := if ok then pure () else throw e

def present {α : Type} (e : StepError) : Option α → Docker α
  | some value => pure value
  | none => throw e

/-- A step's time, in nanoseconds. -/
structure Budget where
  total : Nat
  deriving DecidableEq, Repr

namespace Budget

def new (ms : Nat) : Budget := ⟨ms * 1000000⟩

def leftAfter (b : Budget) (elapsed : Nat) (what : String) : Except StepError Nat :=
  if b.total ≤ elapsed then .error (.timeout s!"the step's time budget ran out before {what}")
  else .ok (b.total - elapsed)

def left (b : Budget) (what : String) : Docker Nat := do
  let elapsed ← host .elapsed
  Process.ofExcept id (b.leftAfter elapsed what)

end Budget

def apiErr (op : String) (e : ApiError) : StepError :=
  let m := s!"{op}: {e.display}"
  if e.isTimeout then .timeout m else .new m

/-- Ask the daemon within the budget. -/
def request (b : Budget) (what : String) (op : ApiOp) : Docker (Except ApiError op.Value) := do
  let left ← b.left what
  host (.api op left)

/-- Ask the daemon within the budget, and fail with its error. -/
def call (b : Budget) (what name : String) (op : ApiOp) : Docker op.Value := do
  let answer ← request b what op
  Process.ofExcept (apiErr name) answer

/-- A text of 128 random bits, or why there is none. -/
def hexOf : Except String (List UInt8) → Except StepError String
  | .ok bytes => .ok (String.join (bytes.map fun x => Wire.hexPadded 2 x.toNat))
  | .error e => .error (.new s!"no randomness available ({e}); nothing was started")

def randomHex : Docker String := do
  let bytes ← host .random
  Process.ofExcept id (hexOf bytes)

/-! ## Names -/

def imageTag (app : ApplicationId) (dep : DeploymentId) (nonce : String) : String :=
  s!"harpoon/{String.ofList (app.asStr.toList.map Char.toLower)}:{dep}-{nonce}"

def preliminaryName (dep : DeploymentId) : String := s!"hp-{dep}-pre"

def servingName (dep : DeploymentId) : String := s!"hp-{dep}"

def replacementName (dep : DeploymentId) : String := s!"hp-{dep}-r2"

/-! ## Whose configuration -/

/-- The release a restoration brings back, with its pin. -/
def State.restoringFrom (st : State) : Option (PreviousRelease × ReleaseConfig) :=
  st.restoring.bind fun p => p.config.map fun c => (p, c)

variable (self : DockerBackend)

/-- The backend's own variables, in order. One without a `=` is kept, with no value. -/
def cfgEnvPairs : List (String × String) :=
  (self.cfg.env.map fun e => (Wire.splitOnce '=' e).getD (e, "")).mergeSort Envvars.pairLe

/-- The variables of the container being created: of the restored release, of the target of a rollback,
or this run's. -/
def effectiveEnv (st : State) : List (String × String) :=
  match st.restoringFrom, st.rollback with
  | some (_, c), _ => c.env
  | none, some (_, c) => c.env
  | none, none => cfgEnvPairs self

def effectiveSecrets (st : State) : List (String × SecretRef) :=
  match st.restoringFrom, st.rollback with
  | some (_, c), _ => c.secrets
  | none, some (_, c) => c.secrets
  | none, none => self.cfg.runtimeSecrets

def effectiveSnapshot (st : State) : Option String :=
  match st.rollback with
  | some (_, c) => c.snapshot
  | none => self.cfg.snapshotId

def effectiveBuild (st : State) : Option String :=
  match st.rollback with
  | some (_, c) => c.build
  | none => self.cfg.buildIdentity

/-- A configuration with this run's parts and the given image and port. -/
def configFor (st : State) (imageId tag : String) (hostPort : UInt16) : ReleaseConfig where
  imageId := imageId
  imageTag := tag
  containerPort := self.cfg.containerPort
  hostPort := hostPort
  health := self.cfg.health
  memoryBytes := self.cfg.limits.memoryBytes
  nanoCpus := self.cfg.limits.nanoCpus
  pids := self.cfg.limits.pids
  env := effectiveEnv self st
  secrets := effectiveSecrets self st
  snapshot := effectiveSnapshot self st
  build := effectiveBuild self st

def pinnedConfig (st : State) : Option ReleaseConfig := do
  let (_, hostPort) ← st.app
  let imageId ← st.imageId
  let tag ← st.imageTag
  return configFor self st imageId tag hostPort

/-- Every secret this operation can inject must be in memory. -/
def checkSecretsAvailable (st : State) (consequence : String) : Except StepError Unit := do
  let missing := (effectiveSecrets self st).find? fun p => (self.secrets.get p.2).isNone
  let missingBuild := self.cfg.buildSecrets.find? fun p => st.rollback.isNone && (self.secrets.get p.2).isNone
  match missing, missingBuild with
  | some (name, r), _ => throw (.new s!"secret {name} ({r.id}@{r.version}) is not available; {consequence}")
  | none, some (id, r) => throw (.new s!"build secret {id} ({r.id}@{r.version}) is not available; {consequence}")
  | none, none => return ()

/-! ## Ports -/

/-- The ports a container that does not run would claim. -/
def stoppedPorts (left : Nat) (c : ContainerSummary) : Docker (Except ApiError (List UInt16)) :=
  if c.state ≠ "running" then host (.api (.configuredHostPorts c.id) left) else return .ok []

/-- The ports of containers. -/
def portsOf (left : Nat) : List ContainerSummary → Docker (Except ApiError (List UInt16))
  | [] => return .ok []
  | c :: cs => do
    match ← stoppedPorts left c with
    | .error e => return .error e
    | .ok own => do
      let rest ← portsOf left cs
      return rest.map fun more => c.hostPorts ++ own ++ more

/-- Host ports that Docker publishes or has configured. -/
def publishedPorts (left : Nat) : Docker (Except ApiError (List UInt16)) := do
  match ← host (.api .listContainers left) with
  | .error e => return .error e
  | .ok list => portsOf left list

/-- The ports among these that something listens on. -/
def listening : List UInt16 → Docker (List UInt16)
  | [] => return []
  | p :: ps => do
    let taken ← host (.isListening p)
    let rest ← listening ps
    return if taken then p :: rest else rest

def occupancy (purpose : Purpose) (b : Budget) : Docker Occupancy := do
  let left ← b.left "reading Docker's port mappings"
  let answer ← publishedPorts left
  let mappings ← Process.ofExcept (apiErr "reading Docker's port mappings") answer
  let r := PortRange.forPurpose purpose
  let listeners ← listening ((List.range r.size).map (r.nth r.start))
  let ledger ← useIo .ledger
  return (Occupancy.mk listeners mappings []).withLedger ledger

/-- A port that nothing seems to hold. -/
def allocatePort (purpose : Purpose) (b : Budget) : Docker PortLease := do
  let occ ← occupancy purpose b
  Process.ofExcept (fun e => .new e.display) (allocate purpose self.cfg.containerPort occ none [])

def receiptedId (name : String) : Docker (Option String) := do
  let ledger ← useIo .ledger
  let dep ← useIo .deployment
  return (ledger.find dep ⟨.container, name⟩).bind (·.id)

end Harpoon.Docker
