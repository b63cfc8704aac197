import Harpoon.Docker.Objects

/-!
# The backend's steps

What `DockerBackend` does for each call of the engine (`backend.rs`): a run that builds, a rollback that
serves a retained image, the cutover with its one replacement after a port collision, and the one bounded
restoration.
-/

namespace Harpoon.Docker

open Interact Deploy Deploy.Ports

variable (self : DockerBackend)

/-- The budget of the step that is served. -/
def stepBudget : Docker Budget := do
  let ms ← useIo .budgetMs
  return .new ms

/-- A text of a host operation that failed, as the step's error. -/
def hostErr (format : String → String) : String → StepError := fun e => .new (format e)

/-! ## The source -/

def liveGateProblems : List String :=
  (if self.cfg.attribution = .perContainer then [] else ["per-container health attribution is off"]) ++
    (if self.forwarder then [] else ["no host-listener (forwarder) check is configured"]) ++
    if self.guestDisk then [] else ["no guest-side free-space probe is configured"]

def checkLiveGates : Except StepError Unit :=
  if self.cfg.liveGates && !(liveGateProblems self).isEmpty then
    let missing := "; ".intercalate (liveGateProblems self)
    .error (.new s!"live execution requirements are not met: {missing}. Nothing was built.")
  else .ok ()

/-- The target's retained image must be there, be the pinned one, and carry the target's labels. -/
def prepareRollbackImage (b : Budget) (dep : DeploymentId) (c : ReleaseConfig) : Docker Unit := do
  require ("sha256:".toList.isPrefixOf c.imageId.toList)
    (.new s!"the pinned image {Envvars.debugStr c.imageId} is not an immutable image id; nothing was changed")
  call b "pinging Docker" "Docker is not reachable on the configured socket" .ping
  let found ← call b "checking the retained image" "checking the retained image" (.imageInspect c.imageId)
  let img ← present (.new s!"the retained image {short c.imageId} of the target release no longer exists; nothing was changed")
    found
  let app ← useIo .app
  require (img.id = c.imageId && hasLabels img.labels app dep)
    (.new s!"image {short c.imageId} is not the image pinned for the target release, or does not carry its Harpoon labels; nothing was changed")
  pushLine s!"rollback: retained image {short c.imageId} verified for deployment {dep}"
  modify fun st => { st with imageId := some c.imageId, imageTag := some c.imageTag }

/-- What the host says of free space, against what is needed. -/
def guestFree (required : Nat) : Except String Nat → Except StepError Nat
  | .error e => .error (.new s!"guest free space could not be verified: {e}")
  | .ok free =>
    if free = 0 then .error (.new "the guest reports no free space (or a value that cannot be trusted)")
    else if free < required then
      .error (.new s!"only {free / 1000000} MB free in the guest; {required / 1000000} MB are required (2 GiB reserve plus the build context). Harpoon never frees space by pruning.")
    else .ok free

def checkGuest (size : Nat) : Docker Unit :=
  if self.guestDisk then do
    let required := min (self.cfg.minFreeBytes + size) maxMs
    let answer ← host .guestFreeBytes
    let free ← Process.ofExcept id (guestFree required answer)
    pushLine s!"guest free space: {free / 1000000} MB (required {required / 1000000} MB)"
  else return ()

/-- Base images must be present locally. -/
def checkBaseImages (b : Budget) : List String → Docker Unit
  | [] => return ()
  | img :: imgs => do
    let found ← call b "checking base images" s!"checking base image {img}" (.imageInspect img)
    let _ ← present (.new s!"base image {img} is not present locally; Harpoon does not pull images in this slice") found
    pushLine s!"base image {img}: present locally"
    checkBaseImages b imgs

def pushLines : List String → Docker Unit
  | [] => return ()
  | l :: ls => do
    pushLine l
    pushLines ls

/-- The preflight of a build. -/
def prepareBuild (b : Budget) : Docker Unit := do
  let confined ← host .confine
  let src ← Process.ofExcept .new confined
  pushLine s!"source: {src.context}"
  pushLines (src.ignoreNotes.map fun n => s!"dockerignore: {n}")
  let measured ← host (.contextSize self.cfg.maxContextBytes)
  let size ← Process.ofExcept (hostErr fun e => s!"cannot measure the build context {src.context}: {e}") measured
  require (size ≤ self.cfg.maxContextBytes)
    (.new s!"the build context is larger than the {self.cfg.maxContextBytes / 1000000} MB limit (counted after applying .dockerignore where Harpoon can interpret it); nothing was built")
  let counted ← host .freeBytes
  let free ← Process.ofExcept (hostErr fun e => s!"disk-space preflight failed: {e}") counted
  require (self.cfg.minFreeBytes ≤ free)
    (.new s!"only {free / 1000000} MB free on the build volume; at least {self.cfg.minFreeBytes / 1000000} MB are required. Harpoon never frees space by pruning.")
  checkGuest self size
  let images ← Process.ofExcept (fun p => .new p.display) (Dockerfile.requiredImages src.dockerfileText)
  modify fun st => { st with requiredImages := some images, contextBytes := size }
  call b "pinging Docker" "Docker is not reachable on the configured socket" .ping
  checkBaseImages b images
  let made ← host .createScratch
  Process.ofExcept (hostErr fun e => s!"cannot create the scratch directory: {e}") made

def prepareSource : Docker Unit := do
  let b ← stepBudget
  Process.ofExcept id (checkLiveGates self)
  let st ← get
  match st.rollback with
  | some (dep, c) => prepareRollbackImage b dep c
  | none => prepareBuild self b

/-! ## The build -/

/-- Whose image already has the tag? -/
def tagOwner (labels : Labels) (app : ApplicationId) (dep : DeploymentId) : String :=
  if hasLabels labels app dep then "carrying this deployment's Harpoon labels"
  else if labels.any fun l => l.1 = Labels.managed then "carrying Harpoon labels"
  else "that Harpoon did not create"

def checkTagUnused (tag : String) (app : ApplicationId) (dep : DeploymentId) : Option ImageInfo → Except StepError Unit
  | none => .ok ()
  | some existing =>
    .error (.new s!"image tag {tag} already exists ({tagOwner existing.labels app dep}); it was not overwritten and no build was run")

/-- The value of a build secret. -/
def wantedSecret (p : String × SecretRef) : Except StepError (String × String) :=
  match self.secrets.get p.2 with
  | some v => .ok (p.1, v)
  | none => .error (.new s!"build secret {p.1} ({p.2.id}@{p.2.version}) is not available; nothing was built")

/-- How Buildx ended. -/
def buildResult : Except BuildRunError Unit → Except StepError Unit
  | .ok () => .ok ()
  | .error .timeout => .error (.timeout "the build ran past its time budget and was killed")
  | .error (.spawn m) => .error (.new s!"could not start the bundled Buildx: {m}")
  | .error (.failed c) =>
    let exit := (c.map fun c => toString c).getD "by signal"
    .error (.new s!"the build failed (Buildx exit {exit})")

def isLowerHex (c : Char) : Bool := c.isDigit || ('a' ≤ c && c ≤ 'f')

/-- The image's identity is what Buildx reported in a file only this attempt knew the name of. -/
def imageIdOf : Except String String → Except StepError String
  | .error e => .error (.new s!"the build reported success but wrote no image ID file: {e}")
  | .ok text =>
    let iid := String.ofList (Dockerfile.trimChars text.toList)
    match Wire.stripPrefix "sha256:" iid with
    | some h =>
      if h.utf8ByteSize = 64 ∧ h.toList.all isLowerHex then .ok iid
      else .error (.new s!"the image ID file does not hold a sha256 ID ({Envvars.debugStr iid})")
    | none => .error (.new s!"the image ID file does not hold a sha256 ID ({Envvars.debugStr iid})")

/-- Does the tag still lead to the image that was built? -/
def tagMoved (tag iid : String) : Option ImageInfo → Except StepError Unit
  | some t =>
    if t.id = iid then .ok ()
    else .error (.new s!"tag {tag} now names a different image than the one built ({short iid}); the built image was recorded and nothing will run")
  | none => .error (.new s!"tag {tag} no longer exists; the built image {short iid} was recorded and nothing will run")

/-- The Dockerfile that Buildx will read must be the one that was checked. -/
def sameDockerfile (text : String) (src : Source) (images : List String) (st : State) : Bool :=
  text = src.dockerfileText && st.requiredImages.all (· = images)

def pushChunks : List String → Docker Unit
  | [] => return ()
  | c :: cs => do
    useIo (.pushChunk c)
    pushChunks cs

/-- Is the path the directory or below it? -/
def isInside (dir path : String) : Bool := path = dir || (dir ++ "/").toList.isPrefixOf path.toList

/-- Run Buildx on the snapshot: its exit and the id it reported. -/
def runBuildx (b : Budget) (tag nonce : String) (labels : Labels) (snap : Snapshot) : Docker String := do
  host .sweepSecrets
  let wanted ← Process.ofExcept id (self.cfg.buildSecrets.mapM (wantedSecret self))
  let written ← host (.secretFiles nonce wanted)
  let files ← Process.ofExcept (hostErr fun e => s!"cannot prepare the build secrets: {e}; nothing was built") written
  require (!(files.any fun f => isInside snap.dir f.2))
    (.new "a build secret would sit inside the build context; nothing was built")
  let left ← b.left "starting the build"
  let (chunks, outcome) ← host (.runBuild
    ⟨snap.dir, tag, labels, nonce, self.cfg.buildTarget, self.cfg.buildArgs, files⟩ left)
  pushChunks chunks
  host .dropSecretFiles
  let text ← host (.takeIidfile nonce)
  Process.ofExcept (fun e => e) (buildResult outcome)
  Process.ofExcept id (imageIdOf text)

/-- The image is recorded as soon as it is known to be ours. -/
def recordBuilt (b : Budget) (tag iid : String) (intent : Intent) : Docker Unit := do
  let found ← call b "checking the built image" "checking the built image" (.imageInspect iid)
  let img ← present (.new s!"the build reported image {short iid} but Docker has no such image") found
  require (img.id = iid) (.new s!"Docker answered for a different image than the reported {short iid}")
  let app ← useIo .app
  let dep ← useIo .deployment
  require (hasLabels img.labels app dep)
    (.new s!"image {short iid} does not carry this deployment's Harpoon labels; it was not recorded as ours")
  receipt intent iid
  modify fun st => { st with imageId := some iid }
  let tagged ← call b "checking the tag still names the built image" "checking the tag" (.imageInspect tag)
  Process.ofExcept (fun e => e) (tagMoved tag iid tagged)
  let digest := (Wire.stripPrefix "sha256:" iid).getD iid
  pushLine s!"image {tag} = {short digest}"

def buildFromSnapshot (b : Budget) (tag nonce : String) (labels : Labels) (intent : Intent) (snap : Snapshot)
    (src : Source) : Docker Unit := do
  pushLines (snap.skipped.map fun s => s!"context: skipped {s} (not a regular file, folder or link)")
  pushLine s!"context snapshot: {snap.files} files, {snap.bytes} bytes, private copy"
  let read ← host (.readDockerfile snap)
  let text ← Process.ofExcept (hostErr fun e => s!"cannot read the snapshot's Dockerfile: {e}") read
  let images ← Process.ofExcept (fun p => .new p.display) (Dockerfile.requiredImages text)
  let st ← get
  require (sameDockerfile text src images st)
    (.new "the Dockerfile changed after the preflight checked it; nothing was built")
  let exists_ ← host (.iidfileExists nonce)
  require (!exists_) (.new s!"{self.cfg.scratchDir}/iid-{nonce} already exists; nothing was built")
  let iid ← runBuildx self b tag nonce labels snap
  recordBuilt b tag iid intent

def build : Docker Unit := do
  let st ← get
  if st.rollback.isSome then pushLine "rollback: nothing is built; the retained image is used as it is"
  else
    let b ← stepBudget
    let nonce ← randomHex
    let app ← useIo .app
    let dep ← useIo .deployment
    let tag := imageTag app dep nonce
    let existing ← call b "checking the image tag is unused" "checking the image tag is unused" (.imageInspect tag)
    Process.ofExcept (fun e => e) (checkTagUnused tag app dep existing)
    -- The build is what creates the image.
    let intent ← intend ⟨.image, tag⟩ .retain
    modify fun st => { st with imageTag := some tag }
    let confined ← host .confine
    let src ← Process.ofExcept .new confined
    let copied ← host (.snapshot nonce)
    let snap ← Process.ofExcept .new copied
    let result ← Process.attempt (buildFromSnapshot self b tag nonce (Labels.forDeployment app dep) intent snap src)
    host (.removeSnapshot snap)
    Process.ofExcept (fun e => e) result

/-! ## The checks -/

def preliminaryCheck : Docker CheckEvidence := do
  let b ← stepBudget
  let lease ← allocatePort self .test b
  -- The port and the container do not outlive the check.
  let intent ← intend (StepIo.leaseKey lease.hostPort) .removeAlways
  receipt intent (toString lease.hostPort)
  let dep ← useIo .deployment
  let name := preliminaryName dep
  let id ← createContainer self b name .removeAlways lease
  modify fun st => { st with pre := some (name, lease.hostPort) }
  call b "starting the preliminary container" "starting the preliminary container" (.startContainer id)
  health self b id name lease.hostPort "the preliminary check"

/-- The application container and its port. -/
def application : Docker (String × UInt16) := do
  let st ← get
  present (.new "no application container was started") st.app

def applicationId (name : String) : Docker String := do
  let id ← receiptedId name
  present (.new s!"container {name} has no receipt in the ledger") id

def finalCheck : Docker CheckEvidence := do
  let b ← stepBudget
  let (name, port) ← application
  let id ← applicationId name
  health self b id name port "the final check"

/-! ## The cutover -/

/-- The image that is planned with, and its tag. -/
def builtImage (st : State) : Option (String × String) := do
  let imageId ← st.imageId
  let tag ← st.imageTag
  return (imageId, tag)

def planRelease : Docker (Option ReleaseConfig) := do
  let b ← stepBudget
  let st ← get
  let (imageId, tag) ← present (.new "no verified image was built; there is nothing to plan") (builtImage st)
  let _ ← Process.ofExcept (hostErr fun e => s!"environment: {e}; nothing was planned")
    (Envvars.validate (effectiveEnv self st))
  Process.ofExcept id (checkSecretsAvailable self st "nothing was planned")
  let lease ← allocatePort self .application b
  leasePort lease
  modify fun st => { st with plannedLease := some lease }
  let st ← get
  return some (configFor self st imageId tag lease.hostPort)

/-- The recorded container that serves a release: its own, or the one a restoration made. -/
def servingContainer (l : Ledger) (app : ApplicationId) (previous : PreviousRelease) : Option Entry :=
  l.entries.find? fun e =>
    e.deployment = (previous.container.map (·.owner)).getD previous.deployment &&
      previous.container.all (fun c => e.key.name = c.name) && e.app = app && e.key.kind = .container &&
      !e.isReleased && e.id.isSome

/-- A container of an entry, as it is read back. -/
def containerOf (e : Entry) : RemoveRequest := requestFor e (e.id.getD "")

def stopVerified (b : Budget) (req : RemoveRequest) : Verified ContainerInfo → Docker Unit
  | .absent => throw (.new "the current release's container is gone; nothing was stopped")
  | .refused why => throw (.new why)
  | .ok info => do
    require info.running (.new "the current release is not running; nothing was stopped")
    let _ ← call b "stopping the current release" "stopping the current release" (.stopContainer req.id 10)
    return ()

/-- Stop the previous release's container. Nothing is removed. -/
def stopCurrent (previous : PreviousRelease) : Docker Unit := do
  let b ← stepBudget
  let ledger ← useIo .ledger
  let app ← useIo .app
  let entry ← present (.new "the previous release has no recorded container; nothing was stopped")
    (servingContainer ledger app previous)
  let verified ← verifyContainer b "re-checking the current release" (containerOf entry)
  stopVerified b (containerOf entry) verified

def stopNewVerified (b : Budget) (id : String) : Verified ContainerInfo → Docker Unit
  | .absent => return ()
  | .refused why => throw (.new why)
  | .ok _ => do
    let _ ← call b "stopping the container" "stopping the new release" (.stopContainer id 10)
    return ()

def stopNew : Docker Unit := do
  let b ← stepBudget
  let (name, _) ← application
  let id ← applicationId name
  let app ← useIo .app
  let dep ← useIo .deployment
  let verified ← verifyContainer b "re-checking the container" ⟨.container, id, name, app, dep⟩
  stopNewVerified b id verified

/-- What a removal in the middle of a step is recorded as. -/
def discardOutcome : Except StepError RemoveResult → CleanupOutcome
  | .ok .removed => .removed
  | .ok .alreadyAbsent => .alreadyAbsent
  | .ok (.refused why) => .refused why
  | .ok (.conflict c why) => .failed s!"conflict ({c.asStr}): {why}"
  | .error e => .failed e.message

/-- An outcome, as Rust prints it for debugging. -/
def outcomeDebug : CleanupOutcome → String
  | .removed => "Removed"
  | .alreadyAbsent => "AlreadyAbsent"
  | .failed m => s!"Failed({Envvars.debugStr m})"
  | .refused m => s!"Refused({Envvars.debugStr m})"
  | .conflict .dockerRefused m => s!"Conflict(DockerRefused, {Envvars.debugStr m})"
  | .conflict .notExclusive m => s!"Conflict(NotExclusive, {Envvars.debugStr m})"

def isGone : CleanupOutcome → Bool
  | .removed | .alreadyAbsent => true
  | _ => false

/-- Remove a container this step created, with the records around it. -/
def discardContainer (name id : String) : Docker Unit := do
  let app ← useIo .app
  let dep ← useIo .deployment
  cleanupAttempt ⟨.container, name⟩
  let result ← Process.attempt (removeResource self ⟨.container, id, name, app, dep⟩)
  cleanupResult ⟨.container, name⟩ (discardOutcome result)
  require (isGone (discardOutcome result))
    (.new s!"could not remove the collided container {name}: {outcomeDebug (discardOutcome result)}")

/-- The port the application starts on: the planned one, or one reserved now. -/
def startingLease (b : Budget) : Docker PortLease := do
  let st ← get
  modify fun st => { st with plannedLease := none }
  match st.plannedLease with
  | some l => return l
  | none => do
    let l ← allocatePort self .application b
    leasePort l
    return l

/-- Create a container of the application's and remember it. -/
def createApplication (b : Budget) (name : String) (lease : PortLease) : Docker String := do
  let id ← createContainer self b name .removeOnFailure lease
  modify fun st => { st with app := some (name, lease.hostPort) }
  return id

/-- One replacement after a collision, then fail. The contested lease is released, and another port is
taken. -/
def replaceCollided (b : Budget) (lease : PortLease) (name id : String) : Docker String := do
  discardContainer self name id
  releaseLease lease.hostPort
  let occ ← occupancy .application b
  let st ← get
  let other ← Process.ofExcept (fun e => .new e.display) (reallocateAfterCollision lease st.replacedFrom occ)
  modify fun st => { st with replacedFrom := some lease.hostPort }
  leasePort other
  let dep ← useIo .deployment
  let id ← createApplication self b (replacementName dep) other
  match ← request b "starting the replacement container" (.startContainer id) with
  | .ok () => return id
  | .error e => do
    attachLogs self b id
    throw (apiErr s!"starting the application container on replacement port {other.hostPort} (ports {lease.hostPort} and {other.hostPort} both failed)" e)

/-- What follows the first start. -/
def afterStart (b : Budget) (lease : PortLease) (name id : String) : Except ApiError Unit → Docker String
  | .ok () => return id
  | .error e =>
    if e.isPortCollision then replaceCollided self b lease name id
    else do
      attachLogs self b id
      throw (apiErr "starting the application container" e)

/-- The container must be running. -/
def confirmRunning (b : Budget) (id : String) : Docker Unit := do
  let found ← call b "confirming the container started" "confirming the container started" (.containerInspect id)
  if found.any (·.running) then return ()
  else
    attachLogs self b id
    throw (.new "the application container is not running after start")

def startNew : Docker Unit := do
  let b ← stepBudget
  let lease ← startingLease self b
  let dep ← useIo .deployment
  let name := servingName dep
  let id ← createApplication self b name lease
  let started ← request b "starting the application container" (.startContainer id)
  let id ← afterStart self b lease name id started
  confirmRunning self b id

/-! ## Restoration -/

/-- The pinned secrets of the release that are not in memory. -/
def missingSecrets (c : ReleaseConfig) : List String :=
  (c.secrets.filter fun p => (self.secrets.get p.2).isNone).map fun p =>
    s!"secret {p.1} ({p.2.id}@{p.2.version}) of the previous release is not available, so it could not be restored"

/-- The ids of the release's own recorded containers. -/
def ownContainers (l : Ledger) (previous : PreviousRelease) : List String :=
  (l.entries.filter fun e =>
    e.key.kind = .container &&
      (e.deployment = previous.deployment ||
        previous.container.any fun c => c.owner = e.deployment && c.name = e.key.name)).filterMap (·.id)

/-- Whose container holds a port, in words. -/
def portHolder (app : ApplicationId) (labels : Labels) : String :=
  if labels.any fun l => l.1 = Labels.app && l.2 = app.asStr then
    let dep := ((labels.find? fun l => l.1 = Labels.deployment).map Prod.snd).getD "?"
    s!"it carries this application's Harpoon labels (deployment {dep}); if it is the failed candidate, `reconcile` removes it after verifying that ownership"
  else if labels.any fun l => l.1 = Labels.managed then
    "it carries another application's Harpoon labels and is not touched"
  else "it carries no Harpoon labels and is not touched; free the port yourself"

/-- Does a container that is not one of the release's own publish the port, or would it if it were
started? -/
def publishes (b : Budget) (own : List String) (port : UInt16) (c : ContainerSummary) : Docker Bool :=
  if own.contains c.id then return false
  else if c.state = "running" then return c.hostPorts.contains port
  else do
    let ports ← call b "reading a container's port configuration" "reading a container's port configuration"
      (.configuredHostPorts c.id)
    return ports.contains port

/-- The running containers that hold the port. A stopped one is only noted. -/
def portBlockers (b : Budget) (app : ApplicationId) (own : List String) (port : UInt16) :
    List ContainerSummary → Docker (List String)
  | [] => return []
  | c :: cs => do
    let held ← publishes b own port c
    let blocker ← noteHolder held c
    let rest ← portBlockers b app own port cs
    return blocker.toList ++ rest
where
  noteHolder (held : Bool) (c : ContainerSummary) : Docker (Option String) :=
    if !held then return none
    else if c.state = "running" then
      return some s!"port {port} is published by the running container {c.name} ({short c.id}): {portHolder app c.labels}"
    else do
      pushLine s!"port {port} is configured on the stopped container {c.name} ({short c.id}), which does not bind it: {portHolder app c.labels}"
      return none

/-- Read-only. -/
def restoreBlockers (previous : PreviousRelease) : Docker (List String) :=
  match previous.config with
  | none => return []
  | some c => do
    if !(missingSecrets self c).isEmpty then return missingSecrets self c
    else
      let b ← stepBudget
      let ledger ← useIo .ledger
      let list ← call b "listing containers for the previous release's port"
        "listing containers for the previous release's port" .listContainers
      let app ← useIo .app
      portBlockers b app (ownContainers ledger previous) c.hostPort list

/-- A journal failure aborts the run; anything else is a failed restoration. -/
def judged (e : StepError) (fallback : Reason) : Docker RestoreResult :=
  if e.fatal.isSome then throw e
  else do
    pushLine s!"restoration: {e.message}"
    return .failed (if e.timedOut then .timeout else fallback)

/-- Why the restoration cannot use the pinned image. `none`: it can. -/
def imageProblem (imageId : String) (app : ApplicationId) (dep : DeploymentId) :
    Except ApiError (Option ImageInfo) → Option (Option String × RestoreResult)
  | .error e =>
    if e.isTimeout then some (none, .failed .timeout)
    else match e with
      | .transport _ => some (none, .notAttempted .dockerUnreachable)
      | e => some (some s!"restoration: {e.display}", .failed .startFailed)
  | .ok (some i) =>
    if i.id = imageId && hasLabels i.labels app dep then none
    else some (some "restoration: the pinned image id no longer carries the previous release's Harpoon labels",
      .notAttempted .imageMissing)
  | .ok none => some (some "restoration: the previous release's image no longer exists", .notAttempted .imageMissing)

/-- The port of the container that served, as Docker has it, must be the pinned one. If Docker cannot
say, the lease rules decide. -/
def portUntrusted (c : ReleaseConfig) : Except ApiError (List UInt16) → Option String
  | .ok ports =>
    if !ports.isEmpty && !ports.contains c.hostPort then
      let known := ", ".intercalate (ports.map toString)
      some s!"restoration: the pinned port {c.hostPort} is not a port the serving container was created with ({known}); the pin cannot be trusted, so nothing was created"
    else none
  | .error _ => none

def checkServingPort (b : Budget) (c : ReleaseConfig) : Option String → Docker (Option String)
  | some id => do
    let answer ← request b "reading the serving container's port" (.configuredHostPorts id)
    return portUntrusted c answer
  | none => return none

/-- Who may hold the pinned port's lease: the release's builder, and the owner of the container that
served it. -/
def leaseOwners (previous : PreviousRelease) : List DeploymentId :=
  previous.deployment :: (previous.container.map (·.owner)).toList

/-- The ports that these owners lease. -/
def leasedBy (l : Ledger) (owners : List DeploymentId) : List String :=
  (l.entries.filter fun e => e.key.kind = .portLease && owners.contains e.deployment && !e.isReleased).map (·.key.name)

def leaseMismatch (c : ReleaseConfig) (leased : List String) : Option String :=
  if !leased.isEmpty && !leased.contains (toString c.hostPort) then
    let names := ", ".intercalate leased
    some s!"restoration: the pinned port {c.hostPort} is not the port the previous release leased ({names}); the pin cannot be trusted, so nothing was created"
  else none

/-- Who holds the lease of a port. -/
def leaseHolder (l : Ledger) (port : UInt16) : Option DeploymentId :=
  (l.entries.find? fun e => e.key.kind = .portLease && e.key.name = toString port && !e.isReleased).map (·.deployment)

/-- How a healthy restoration ends, and one that is not. -/
def restoreVerdict : Except StepError CheckEvidence → Docker RestoreResult
  | .ok ev => do
    pushLine s!"restoration check: {ev.summary}"
    return .healthy
  | .error e =>
    if e.fatal.isSome then throw e
    else do
      pushLine s!"restoration check: {e.message}"
      return .startedUnverified

/-- Start the restored container and check it. -/
def startRestored (b : Budget) (c : ReleaseConfig) (name id : String) : Docker RestoreResult := do
  match ← request b "starting the restored container" (.startContainer id) with
  | .error e => do
    attachLogs self b id
    return .failed (if e.isTimeout then .timeout else .startFailed)
  | .ok () => do
    let checked ← Process.attempt (health self b id name c.hostPort "the restoration check")
    restoreVerdict checked

/-- Recreate the container on the lease, and serve from it. -/
def recreate (b : Budget) (c : ReleaseConfig) (lease : PortLease) : Docker RestoreResult := do
  let dep ← useIo .deployment
  let name := restoredContainerName dep
  match ← Process.attempt (createContainer self b name .retain lease) with
  | .error e => judged e .startFailed
  | .ok id => startRestored self b c name id

/-- Take the pinned port: held by the release already, free to lease, or somebody else's. -/
def restoreOn (b : Budget) (previous : PreviousRelease) (c : ReleaseConfig) : Option DeploymentId → Docker RestoreResult
  | some d =>
    if (leaseOwners previous).contains d then recreate self b c ⟨c.hostPort, c.containerPort, .application⟩
    else do
      pushLine s!"restoration: port {c.hostPort} is leased by deployment {d}; it was not used"
      return .failed .startFailed
  | none => do
    match ← Process.attempt (leasePort ⟨c.hostPort, c.containerPort, .application⟩) with
    | .error e => judged e .startFailed
    | .ok () => recreate self b c ⟨c.hostPort, c.containerPort, .application⟩

/-- The pin must agree with the ports that Docker and the ledger know. -/
def restoreTrusted (b : Budget) (previous : PreviousRelease) (c : ReleaseConfig) (app : ApplicationId) :
    Docker RestoreResult := do
  let ledger ← useIo .ledger
  let untrusted ← checkServingPort b c ((servingContainer ledger app previous).bind (·.id))
  match untrusted.orElse fun _ => leaseMismatch c (leasedBy ledger (leaseOwners previous)) with
  | some why => do
    pushLine why
    return .notAttempted .configUnavailable
  | none => restoreOn self b previous c (leaseHolder ledger c.hostPort)

def restoreInner (b : Budget) (previous : PreviousRelease) (c : ReleaseConfig) : Docker RestoreResult := do
  let answer ← request b "checking the previous release's image" (.imageInspect c.imageId)
  let app ← useIo .app
  match imageProblem c.imageId app previous.deployment answer with
  | some (note, result) => do
    pushLines note.toList
    return result
  | none => restoreTrusted self b previous c app

/-- One bounded attempt, never retried. -/
def restorePrevious (previous : PreviousRelease) (budgetMs : Nat) : Docker RestoreResult :=
  match previous.config with
  | none => return .notAttempted .configUnavailable
  | some c => do
    modify fun st => { st with restoring := some previous }
    let out ← Process.attempt (restoreInner self (.new budgetMs) previous c)
    modify fun st => { st with restoring := none }
    Process.ofExcept (fun e => e) out

/-! ## All calls -/

/-- What the backend does for each call of the engine. -/
def perform : (c : Call) → Docker c.Ret
  | .prepareSource => prepareSource self
  | .build => build self
  | .preliminaryCheck => preliminaryCheck self
  | .planRelease => planRelease self
  | .stopCurrent previous => stopCurrent previous
  | .startNew => startNew self
  | .finalCheck => finalCheck self
  | .stopNew => stopNew
  | .restoreBlockers previous => restoreBlockers self previous
  | .restorePrevious previous budgetMs => restorePrevious self previous budgetMs

end Harpoon.Docker
