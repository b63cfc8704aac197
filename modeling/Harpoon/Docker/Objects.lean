import Harpoon.Docker.Backend

/-!
# Containers and images

How the backend creates a container, reads one back before it changes it, removes one, and checks its
health (`backend.rs`).
-/

namespace Harpoon.Docker

open Interact Deploy Deploy.Ports

variable (self : DockerBackend)

/-! ## Creation -/

/-- What a container is created from. -/
structure Origin where
  imageId : String
  tag : String
  /-- The deployment whose labels the image carries. -/
  owner : DeploymentId
  limits : Limits
  deriving DecidableEq, Repr

/-- The image this attempt built, a rollback's retained one, or the pinned one of the release that is
being restored. -/
def originOf (dep : DeploymentId) (st : State) : Except StepError Origin :=
  match st.restoringFrom with
  | some (p, c) => .ok ⟨c.imageId, c.imageTag, p.deployment, ⟨c.memoryBytes, c.nanoCpus, c.pids⟩⟩
  | none =>
    match st.imageId with
    | none => .error (.new "no verified image was built")
    | some imageId =>
      .ok ⟨imageId, st.imageTag.getD imageId, (st.rollback.map Prod.fst).getD dep, self.cfg.limits⟩

def creationLabels (app : ApplicationId) (dep : DeploymentId) (st : State) : Labels :=
  Labels.forDeployment app dep ++ (st.restoring.map fun p => (restoresLabel, p.deployment.asStr)).toList

/-- The image must be the verified one and declare no volumes. It is addressed by its id. -/
def checkImage (b : Budget) (app : ApplicationId) (o : Origin) : Docker Unit := do
  let found ← call b "checking the image's declared volumes" "checking the image's declared volumes"
    (.imageInspect o.imageId)
  let img ← present (.new s!"image {o.tag} ({short o.imageId}) no longer exists") found
  require (img.id = o.imageId && hasLabels img.labels app o.owner)
    (.new s!"image {o.tag} is no longer the image that was built and verified; no container was created")
  let volumes := ", ".intercalate img.volumes
  require img.volumes.isEmpty
    (.new s!"image {o.tag} declares volumes ({volumes}); Harpoon's first slice does not manage volumes, so no container was created. Remove the VOLUME instruction (including any inherited from the base image).")

/-- A secret as an environment entry. -/
def exposed (p : String × SecretRef) : Except StepError String :=
  match self.secrets.get p.2 with
  | some v => .ok (p.1 ++ "=" ++ v)
  | none => .error (.new s!"secret {p.1} ({p.2.id}@{p.2.version}) is not available; no container was created")

/-- The environment of a container without its marker. -/
def creationEnv (st : State) : Except StepError (List String) :=
  match Envvars.validate (effectiveEnv self st) with
  | .error e => .error (.new s!"environment: {e}; no container was created")
  | .ok pairs => do
    let secrets ← (effectiveSecrets self st).mapM (exposed self)
    return Envvars.dockerForm pairs ++ secrets

/-- A marker of its own for the container, if responses must carry one. -/
def giveMarker (name imageId : String) : Docker (List String) :=
  match self.cfg.attribution with
  | .off => return []
  | .perContainer => do
    let value ← randomHex
    modify fun st =>
      { st with markers := (name, value) :: st.markers, createdImages := (name, imageId) :: st.createdImages }
    return [markerEnv ++ "=" ++ value]

/-- A name that is taken is never taken over. -/
def recordCreated (name : String) (intent : Intent) : CreateOutcome → Docker String
  | .created id => do
    receipt intent id
    return id
  | .nameInUse why =>
    throw (.new s!"the container name {name} is already in use by something this deployment did not create; it was not touched ({why})")

/-- Create a labelled container: intent, create, receipt. -/
def createContainer (b : Budget) (name : String) (disposition : Disposition) (lease : PortLease) :
    Docker String := do
  let app ← useIo .app
  let dep ← useIo .deployment
  let st ← get
  let o ← Process.ofExcept id (originOf self dep st)
  let labels := creationLabels app dep st
  checkImage b app o
  let env ← Process.ofExcept id (creationEnv self st)
  let marker ← giveMarker self name o.imageId
  let intent ← intend ⟨.container, name⟩ disposition
  let outcome ← call b "creating the container" s!"creating container {name}"
    (.createContainer name ⟨o.imageId, labels, env ++ marker, lease.containerPort, lease.hostPort, o.limits⟩)
  recordCreated name intent outcome

/-! ## Reading back -/

/-- What an object was found to be. -/
inductive Verified (ι : Type) where
  | absent
  | refused (why : String)
  | ok (info : ι)
  deriving DecidableEq, Repr

/-- Is the container that was read back what the ledger says it is? -/
def judgeContainer (req : RemoveRequest) : Option ContainerInfo → Verified ContainerInfo
  | none => .absent
  | some info =>
    if info.id ≠ req.id then .refused s!"the object behind id {req.id} reports a different id; not touched"
    else if info.name ≠ req.name then
      .refused s!"container {short info.id} is now named {info.name}, not {req.name}; not touched"
    else if !hasLabels info.labels req.app req.deployment then
      .refused s!"container {req.name} no longer carries this deployment's Harpoon labels (managed, app, deployment); not touched"
    else .ok info

def verifyContainer (b : Budget) (what : String) (req : RemoveRequest) : Docker (Verified ContainerInfo) := do
  let found ← call b what "re-checking the container before changing it" (.containerInspect req.id)
  return judgeContainer req found

def judgeImage (req : RemoveRequest) : Option ImageInfo → Verified ImageInfo
  | none => .absent
  | some img =>
    if img.id ≠ req.id then .refused s!"image {req.name} reports a different id; not touched"
    else if !hasLabels img.labels req.app req.deployment then
      .refused s!"image {req.name} does not carry this deployment's Harpoon labels; not touched"
    else .ok img

/-! ## Removal -/

def listResources : Docker (List Observed) := do
  let left := self.cfg.cleanupTimeout
  let listed ← host (.api .listContainers left)
  let containers ← Process.ofExcept (apiErr "listing containers") listed
  let imaged ← host (.api .listImages left)
  let images ← Process.ofExcept (apiErr "listing images") imaged
  return containers.map (fun c => ⟨.container, c.name, c.id, c.labels⟩) ++
    images.map fun (id, name, labels) => ⟨.image, name, id, labels⟩

/-- What a deletion's answer says. -/
def removed (there : Bool) : RemoveResult := if there then .removed else .alreadyAbsent

/-- Stop the container first if it runs. `false`: it is gone. -/
def stopFirst (b : Budget) (req : RemoveRequest) (running : Bool) : Docker Bool :=
  if running then call b "stopping the container" s!"stopping {req.name}" (.stopContainer req.id 10)
  else return true

def removeContainer (b : Budget) (req : RemoveRequest) : Verified ContainerInfo → Docker RemoveResult
  | .absent => return .alreadyAbsent
  | .refused why => return .refused why
  | .ok info => do
    let there ← stopFirst b req info.running
    if there then
      let answer ← call b "removing the container" s!"removing {req.name}" (.removeContainer req.id)
      return removed answer
    else return .alreadyAbsent

def removeImage (b : Budget) (req : RemoveRequest) : Verified ImageInfo → Docker RemoveResult
  | .absent => return .alreadyAbsent
  | .refused why => return .refused why
  | .ok _ => do
    let answer ← call b "removing the image" s!"removing image {req.name}" (.removeImage req.id)
    return removed answer

/-- Remove one recorded object. -/
def removeResource (req : RemoveRequest) : Docker RemoveResult :=
  let b : Budget := ⟨self.cfg.cleanupTimeout⟩
  match req.kind with
  | .portLease => return .refused "a port lease is a ledger reservation, not a Docker object"
  | .container => do
    let verified ← verifyContainer b "re-checking the container" req
    removeContainer b req verified
  | .image => do
    let found ← call b "re-checking the image" "re-checking the image before removing it" (.imageInspect req.id)
    removeImage b req (judgeImage req found)

/-! ## A retained image -/

/-- What is known about a retained image. Ownership and exclusivity are different questions. -/
inductive ImageVerdict where
  /-- Harpoon's image, under no other tag and no digest, and used by no container. -/
  | eligible
  | absent
  /-- Not provably Harpoon's. -/
  | ownership (why : String)
  /-- Harpoon's, but others may hold it. -/
  | notExclusive (why : String)
  deriving DecidableEq, Repr

/-- Judged by the image alone. -/
def judgeRetained (id tag : String) (app : ApplicationId) (dep : DeploymentId) (img : ImageInfo) : ImageVerdict :=
  let others := img.tags.filter (· ≠ tag)
  if img.id ≠ id then
    .ownership s!"Docker answered for image {short img.id} when asked about {short id}; not touched"
  else if !hasLabels img.labels app dep then
    .ownership s!"image {short id} does not carry this deployment's Harpoon labels (managed, app, deployment); not touched"
  else if !others.isEmpty then
    let names := ", ".intercalate others
    .notExclusive s!"image {short id} is also tagged {names}; Harpoon removes only an image it exclusively owns"
  else if !img.repoDigests.isEmpty then
    let digests := ", ".intercalate img.repoDigests
    .notExclusive s!"image {short id} is known by registry digest {digests}; it may be referenced elsewhere"
  else .eligible

/-- Judged by the containers there are. -/
def judgeUsers (id : String) (containers : List ContainerSummary) : ImageVerdict :=
  let users := containers.filter (·.imageId = id)
  let unknown := containers.filter (·.imageId.isEmpty)
  if !users.isEmpty then
    let names := ", ".intercalate (users.map fun c => s!"{c.name} ({c.state})")
    .notExclusive s!"container {names} was created from this image"
  else if !unknown.isEmpty then
    let names := ", ".intercalate (unknown.map (·.name))
    .notExclusive s!"Docker does not report which image container {names} uses, so it cannot be shown not to use this one"
  else .eligible

/-- Read-only. -/
def assessRetainedImage (id tag : String) (app : ApplicationId) (dep : DeploymentId) : Docker ImageVerdict := do
  let b : Budget := ⟨self.cfg.cleanupTimeout⟩
  let found ← call b "inspecting the retained image" "inspecting the retained image" (.imageInspect id)
  match found.map (judgeRetained id tag app dep) with
  | none => return .absent
  | some .eligible => do
    let containers ← call b "listing containers" "listing containers" .listContainers
    return judgeUsers id containers
  | some other => return other

/-- What Docker's answer to the deletion of a retained image is recorded as. -/
def retainedRemoved (req : RemoveRequest) : Except ApiError Bool → Except StepError RemoveResult
  | .ok there => .ok (removed there)
  | .error e =>
    if e.isConflict then
      .ok (.conflict .dockerRefused s!"Docker refused to delete image {short req.id} (HTTP 409: it is still referenced); nothing was deleted")
    else .error (apiErr s!"removing image {req.name}" e)

def removeRetained (req : RemoveRequest) : ImageVerdict → Docker RemoveResult
  | .absent => return .alreadyAbsent
  | .ownership why => return .refused why
  | .notExclusive why => return .conflict .notExclusive s!"{why}; nothing was deleted"
  | .eligible => do
    let answer ← host (.api (.removeImage req.id) self.cfg.cleanupTimeout)
    Process.ofExcept id (retainedRemoved req answer)

/-- `RetainedImageOps`: assess the image, then delete it by id. -/
def removeRetainedImage (req : RemoveRequest) : Docker RemoveResult :=
  if req.kind = .image then do
    let verdict ← assessRetainedImage self req.id req.name req.app req.deployment
    removeRetained self req verdict
  else return .refused "this operation removes a retained image only"

/-! ## Logs and health -/

def logLines : Except ApiError LogText → Docker Unit
  | .ok l => do
    pushLine "--- container output (last lines) ---"
    useIo (.pushText l.text)
    if l.truncated then pushLine "--- container output was cut at the size cap ---"
  | .error e => pushLine s!"(could not read container logs: {e.display})"

/-- Best effort. -/
def attachLogs (b : Budget) (id : String) : Docker Unit := do
  let elapsed ← host .elapsed
  match b.leftAfter elapsed "reading container logs" with
  | .error _ => return ()
  | .ok left =>
    let answer ← host (.api (.logs id self.cfg.logTailLines self.cfg.logMaxBytes) left)
    logLines answer

/-- Why a published port is not the one that was leased. -/
def wrongPort (containerPort hostPort : UInt16) (p : Published) : Option String :=
  if p.containerPort ≠ containerPort then
    some s!"Docker reports container port {p.containerPort} published; only {containerPort} may be"
  else if p.hostPort ≠ hostPort then
    some s!"Docker reports container port {containerPort} published on host port {p.hostPort}, not the leased {hostPort}"
  else if p.hostIp ∉ ["", "0.0.0.0", "::", "127.0.0.1"] then some s!"Docker reports the port bound to {p.hostIp}"
  else none

/-- The container must publish exactly its one port on exactly the leased one. -/
def verifyMapping (info : ContainerInfo) (containerPort hostPort : UInt16) : Option String :=
  let tcp := info.published.filter (·.proto = "tcp")
  if tcp.isEmpty then some s!"Docker reports no published port for container port {containerPort}"
  else tcp.findSome? (wrongPort containerPort hostPort)

/-- What the container is checked with, and the port it serves on inside. -/
def healthOf (st : State) : HealthSpec × UInt16 :=
  match st.restoringFrom with
  | some (_, c) => (c.health, c.containerPort)
  | none => (self.cfg.health, self.cfg.containerPort)

/-- A check takes no longer than its step. -/
def checkedSpec (b : Budget) (base : HealthSpec) : HealthSpec :=
  { base with startupDeadlineMs := min base.startupDeadlineMs (b.total / 1000000) }

/-- Which answer counts. -/
def markerFor (st : State) (name : String) : Except StepError (Option ResponseMarker) :=
  match self.cfg.attribution with
  | .off => .ok self.cfg.healthMarker
  | .perContainer =>
    match st.markers.lookup name with
    | none => .error (.new s!"container {name} has no response marker; its health cannot be attributed")
    | some value =>
      if (Dockerfile.trimChars value.toList).isEmpty then
        .error (.new "bad response marker: a marker needs a non-empty name and value")
      else .ok (some (.header markerHeader (String.ofList (Dockerfile.trimChars value.toList))))

/-- Before the check a running container must publish the leased port. One that does not run is left to
the probe. -/
def mappingBefore (what : String) (containerPort port : UInt16) : Option ContainerInfo → Except StepError Unit
  | none => .ok ()
  | some info =>
    if info.running then
      match verifyMapping info containerPort port with
      | some m => .error (.new s!"{what}: the port mapping is not what was leased: {m}")
      | none => .ok ()
    else .ok ()

def statusClassDebug : StatusClass → String
  | .success2xx => "Success2xx"
  | .notServerError => "NotServerError"

def scopeNote : String :=
  "local container only — not a guarantee of behaviour on Vercel or any other environment"

/-- The evidence of a loop of probes. -/
def evidenceOf (check : Check) (simulated : Bool) (w : Watched) : CheckEvidence where
  target := check.target
  expected := s!"HTTP {statusClassDebug check.spec.expect}, {check.spec.consecutiveOk} consecutive"
  expect := check.spec.expect
  simulated := simulated
  attempts := w.attempts
  consecutiveRequired := check.spec.consecutiveOk
  consecutiveReached := w.reached
  elapsedMs := w.elapsedMs
  verdict := w.verdict
  scopeNote := scopeNote

/-- Mark evidence with what ties it to its container. -/
def withAttribution (ev : CheckEvidence) (label : String) : CheckEvidence :=
  { ev with expected := s!"{ev.expected} [{label}]" }

/-- A response without the marker counts only for the container that was created, started once. -/
def unmarkedProblem (st : State) (name : String) (w : Watched) (info : ContainerInfo) : Option String :=
  match w.baseline with
  | none => some "the container's image is not the one Harpoon created for it"
  | some base =>
    (base.differs info).orElse fun _ =>
      if st.createdImages.lookup name = some base.imageId then none
      else some "the container's image is not the one Harpoon created for it"

/-- What is wrong with the container after a healthy response, as far as Docker's report of it shows.
`none`: nothing. -/
def mappingAfter (st : State) (name : String) (containerPort port : UInt16) (w : Watched) :
    Option ContainerInfo → Option String
  | none => some "the container is not running after the health probe"
  | some info =>
    if info.running then
      (verifyMapping info containerPort port).orElse fun _ =>
        if w.usedUnmarked then unmarkedProblem st name w info else none
    else some "the container is not running after the health probe"

/-- Prove the path once more for a response without the marker. -/
def proveAgain (check : Check) (containerPort : UInt16) (w : Watched) : Docker (Option String) :=
  if w.usedUnmarked && check.gated then do
    match ← host (.provePath check.containerId containerPort check.port) with
    | .ok () => return none
    | .error e => return some e
  else return none

def forwarderProblem (port : UInt16) : Docker (Option String) :=
  if self.forwarder then do
    match ← host (.verifyForwarder port) with
    | .ok () => return none
    | .error e => return some s!"host listener: {e}"
  else return none

/-- The first problem of those that are looked for one after the other. -/
def orAsk (found : Option String) (next : Docker (Option String)) : Docker (Option String) :=
  match found with
  | some m => return some m
  | none => next

/-- The evidence of a check that can be trusted. -/
def trusted (w : Watched) (ev : CheckEvidence) : CheckEvidence :=
  match self.cfg.attribution with
  | .off => ev
  | .perContainer => withAttribution ev (if w.usedUnmarked then attributionPath else attributionMarker)

/-- A healthy response was seen: is it this container's? -/
def trustHealthy (b : Budget) (check : Check) (name : String) (containerPort : UInt16) (what : String)
    (w : Watched) (ev : CheckEvidence) : Docker CheckEvidence := do
  let found ← call b "re-reading the port mapping" "re-reading the container's port mapping"
    (.containerInspect check.containerId)
  let st ← get
  let proven ← orAsk (mappingAfter st name containerPort check.port w found) (proveAgain check containerPort w)
  let problem ← orAsk proven (forwarderProblem self check.port)
  match problem with
  | none => return trusted self w ev
  | some m => do
    attachLogs self b check.containerId
    throw ((StepError.new s!"{what}: a healthy response was seen but could not be trusted: {m}").withEvidence ev)

/-- What a check that was not healthy fails with. -/
def unhealthy (what : String) (ev : CheckEvidence) : StepError :=
  let msg := s!"{what} did not pass: {ev.summary}"
  (if ev.verdict = .notHealthy then StepError.timeout msg else .new msg).withEvidence ev

/-- Judge what the probes saw. -/
def concludeHealth (b : Budget) (check : Check) (name : String) (containerPort : UInt16) (what : String)
    (w : Watched) : Docker CheckEvidence := do
  let ev := evidenceOf check self.simulated w
  match w.changed with
  | some why => do
    attachLogs self b check.containerId
    throw ((StepError.new s!"{what}: {why}; the check was stopped and nothing was switched").withEvidence ev)
  | none =>
    if ev.isHealthy then trustHealthy self b check name containerPort what w ev
    else do
      attachLogs self b check.containerId
      throw (unhealthy what ev)

/-- Check the health of a container through its published port. -/
def health (b : Budget) (id name : String) (port : UInt16) (what : String) : Docker CheckEvidence := do
  let st ← get
  let (base, containerPort) := healthOf self st
  let spec := checkedSpec b base
  let marker ← Process.ofExcept (fun e => e) (markerFor self st name)
  require (!(self.cfg.liveGates && marker.isNone))
    (.new "a live health check needs a response marker; none is configured")
  let found ← call b "reading the port mapping" "reading the container's port mapping" (.containerInspect id)
  Process.ofExcept (fun e => e) (mappingBefore what containerPort port found)
  let gated := self.pathProof && self.cfg.attribution = .perContainer
  let check : Check := ⟨spec, s!"http://127.0.0.1:{port}{spec.path}", id, port, marker, gated⟩
  let w ← host (.runHealth check)
  concludeHealth self b check name containerPort what w

end Harpoon.Docker
