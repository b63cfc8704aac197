import Harpoon.Deploy.Envvars
import Harpoon.Deploy.Serving

/-!
# Releases to go back to

Which earlier releases an application could be rolled back to (`rollback.rs`), decided from the recorded deployments and
the ledger only. A release is a deployment that succeeded; what stands in the way of serving it again is listed with it.
-/

namespace Harpoon.Deploy

structure RetainedRelease where
  release : ReleaseId
  deployment : DeploymentId
  finishedMs : Nat
  config : Option ReleaseConfig
  serving : Bool
  /-- Why this release cannot be rolled back to. -/
  problems : List String
  deriving DecidableEq, Repr

def RetainedRelease.eligible (r : RetainedRelease) : Bool := r.problems.isEmpty

/-- When the deployment ended, or else was made. -/
def Deployment.endedMs (d : Deployment) : Nat := d.finishedMs.getD d.createdMs

/-- An image of the deployment that is recorded as present. -/
def Entry.isRetainedImage (e : Entry) (app : ApplicationId) (owner : DeploymentId) : Bool :=
  e.deployment = owner && e.app = app && e.key.kind = .image && e.id.isSome && !e.isReleased

/-- A release that any deployment can be rolled back to: a succeeded one of the application, which is no rollback. -/
def Deployment.isRelease (d : Deployment) (app : ApplicationId) : Bool :=
  d.applicationId = app && d.status = .succeeded && d.rollbackTo.isNone

section

variable (l : Ledger) (app : ApplicationId)

/-- What the serving release says of going back: it must be known, be another one, and have ended later. -/
def servingProblems (serving : Option Serving) (servingEnded : Option Nat) (release : ReleaseId) (finishedMs : Nat) :
    List String :=
  match serving, servingEnded with
  | none, _ => ["the application has no serving release recorded"]
  | some _, none => ["the serving release's deployment is not in the journal"]
  | some s, some ended =>
    if s.release = release then ["this is the release serving now"]
    else if ended ≤ finishedMs then
      ["this release is not earlier than the serving one (moving forward is a replacement, not a rollback)"]
    else []

def pinProblems : Option ReleaseConfig → List String
  | none => ["no pinned configuration was stored for it (it predates pinning)"]
  | some c =>
    if (Wire.stripPrefix "sha256:" c.imageId).isSome then []
    else [s!"its pinned image {Envvars.debugStr c.imageId} is not an immutable image id"]

def imageProblems (d : Deployment) : List String :=
  if l.entries.any fun e => e.isRetainedImage app d.id then []
  else ["its retained image is not recorded as present (removed, or never recorded)"]

/-- The release of a deployment, and what stands in the way. -/
def retainedRelease (serving : Option Serving) (servingEnded : Option Nat) (d : Deployment) (release : ReleaseId) :
    RetainedRelease where
  release := release
  deployment := d.id
  finishedMs := d.endedMs
  config := d.pinned
  serving := serving.any fun s => s.release = release
  problems := servingProblems serving servingEnded release d.endedMs ++ pinProblems d.pinned ++ imageProblems l app d

/-- The later one first; of equal times, that of the greater identifier. -/
def RetainedRelease.le (a b : RetainedRelease) : Bool :=
  b.finishedMs < a.finishedMs || (b.finishedMs = a.finishedMs && !decide (a.deployment.asStr < b.deployment.asStr))

/-- Every release of the application, the newest first. -/
def retainedReleases (deployments : List Deployment) : List RetainedRelease :=
  let serving := servingRelease l deployments app
  let servingEnded := serving.bind fun s => (deployments.find? fun d => d.id = s.deployment).map Deployment.endedMs
  let releases := deployments.filterMap fun d =>
    if d.isRelease app then d.release.map (retainedRelease l app serving servingEnded d) else none
  releases.mergeSort RetainedRelease.le

def notARelease (target : ReleaseId) : String :=
  s!"release {target} is not a succeeded release of application {app} in the journal"

/-- The one release that `target` names, or every reason why it cannot be rolled back to. -/
def selectTarget (deployments : List Deployment) (target : ReleaseId) : Except (List String) RetainedRelease :=
  match (retainedReleases l app deployments).find? fun r => r.release = target with
  | none => .error [notARelease app target]
  | some r => if r.eligible then .ok r else .error r.problems

end

end Harpoon.Deploy
