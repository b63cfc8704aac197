import Harpoon.Deploy.Ledger
import Harpoon.Deploy.State
import Harpoon.Wire.Number

/-!
# What an application serves

Which release an application serves, and in which container (`serving.rs`); which port its hostname goes to
(`route.rs`). Both are derived from the recorded deployments and the ledger, and from nothing else.
-/

namespace Harpoon.Deploy

/-! ## The serving release -/

inductive ServedBy where
  /-- The release's own container. -/
  | original
  /-- A container recreated by the bounded restoration of this failed deployment. -/
  | restored (by_ : DeploymentId)
  /-- A container that a rollback created from the release's retained image. -/
  | rolledBack (by_ : DeploymentId)
  deriving DecidableEq, Repr

structure Serving where
  application : ApplicationId
  release : ReleaseId
  /-- The deployment that built the release. -/
  deployment : DeploymentId
  /-- The deployment whose ledger holds the serving container. -/
  containerOwner : DeploymentId
  containerName : String
  via : ServedBy
  sinceMs : Nat
  /-- The configuration this container actually serves with, when one was pinned. -/
  config : Option ReleaseConfig
  deriving DecidableEq, Repr

/-- A recorded container of the application that was not released; of this name, if one is asked for. -/
def Entry.isLiveContainer (e : Entry) (app : ApplicationId) (only : Option String) : Bool :=
  e.app = app && e.key.kind = .container && !e.isReleased && e.id.isSome && only.all (e.key.name = ·)

/-- The first live container of the application that the deployment `owner` holds. -/
def Ledger.liveContainer (l : Ledger) (app : ApplicationId) (owner : DeploymentId) (only : Option String) :
    Option String :=
  (l.entries.find? fun e => e.deployment = owner && e.isLiveContainer app only).map (·.key.name)

/-- The order in which candidates are preferred. -/
def Serving.comesAfter (c best : Serving) : Bool :=
  best.sinceMs < c.sinceMs || (best.sinceMs = c.sinceMs && best.containerOwner.asStr < c.containerOwner.asStr)

def consider (best : Option Serving) (c : Serving) : Option Serving :=
  if best.all c.comesAfter then some c else best

section

variable (l : Ledger) (deployments : List Deployment) (app : ApplicationId)

/-- A deployment that succeeded serves its own release, or on a rollback the earlier one. -/
def succeededCandidate (d : Deployment) : Option Serving :=
  if d.status = .succeeded then do
    let rel ← d.release
    let name ← l.liveContainer app d.id none
    return {
      application := app
      release := d.rollbackTo.getD rel
      deployment := (d.rollbackTo.map ReleaseId.deployment).getD d.id
      containerOwner := d.id
      containerName := name
      via := if d.rollbackTo.isSome then .rolledBack d.id else .original
      sinceMs := d.finishedMs.getD d.createdMs
      config := d.pinned }
  else none

/-- What the deployment that built a release pinned. -/
def pinnedBy (rel : ReleaseId) : Option ReleaseConfig :=
  (deployments.find? fun x => x.id = rel.deployment).bind (·.pinned)

/-- A restoration serves the release that was replaced. -/
def restoredCandidate (d : Deployment) : Option Serving := do
  let rec_ ← d.recovery.filter fun r => r.outcome.serviceRestored
  let rel ← d.replaces
  let name ← l.liveContainer app d.id (some (restoredContainerName d.id))
  return {
    application := app
    release := rel
    deployment := rel.deployment
    containerOwner := d.id
    containerName := name
    via := .restored d.id
    sinceMs := rec_.finishedMs.getD rec_.startedMs
    config := pinnedBy deployments rel }

/-- What a deployment can have left serving, in the order in which it is considered. -/
def candidatesOf (d : Deployment) : List Serving :=
  (succeededCandidate l app d).toList ++ (restoredCandidate l deployments app d).toList

def candidates : List Serving :=
  (deployments.filter fun d => d.applicationId = app).flatMap (candidatesOf l deployments app)

/-- The release the application serves now, or `none` when nothing is recorded as serving. -/
def servingRelease : Option Serving := (candidates l deployments app).foldl consider none

/-- The entry is a container's that belongs to the release: its own, one of a rollback to it, or one that a restoration
made for it. -/
def Entry.servesRelease (e : Entry) (deployments : List Deployment) (releaseDep : DeploymentId) : Bool :=
  let release := ReleaseId.fromDeployment releaseDep
  e.deployment = releaseDep ||
    (deployments.any fun f => f.id = e.deployment && f.rollbackTo = some release && f.status = .succeeded) ||
    deployments.any fun f => f.id = e.deployment && f.replaces = some release &&
      e.key.name = restoredContainerName f.id && f.recovery.any fun r => r.outcome.serviceRestored

/-- What dismantling a release must handle. -/
def containersOfRelease (releaseDep : DeploymentId) : List Entry :=
  l.entries.filter fun e => e.key.kind = .container && e.servesRelease deployments releaseDep

/-! ## Routes -/

/-- The host port of the release that the application serves now: as it is pinned, or as it is leased by the
deployment that built it. -/
def servingPort : Option UInt16 := do
  let s ← servingRelease l deployments app
  match s.config with
  | some c => return c.hostPort
  | none =>
    (l.entries.filter fun e => e.deployment = s.deployment && e.key.kind = .portLease && !e.isReleased).findSome? fun e =>
      (Wire.parseUnsigned 10 65535 e.key.name).map UInt16.ofNat

end

def labelLen : Nat := 10

/-- The last characters of the identifier, in lower case. -/
def label (app : ApplicationId) : String :=
  let id := app.asStr.toList
  let body := if '_' ∈ id then (id.dropWhile (· ≠ '_')).tail else id
  String.ofList ((body.drop (body.length - labelLen)).map Char.toLower)

def hostname (app : ApplicationId) : String := s!"{label app}.harpoon.localhost"

inductive Route where
  /-- Forward to this host port. -/
  | serving (app : ApplicationId) (port : UInt16)
  /-- Nothing is recorded as serving, or no port is known. -/
  | idle (app : ApplicationId)
  /-- Several applications derive the same hostname. -/
  | conflict (apps : List ApplicationId)
  deriving DecidableEq, Repr

/-- Each application with its serving port, if any. -/
structure RouteTable where
  claims : List (ApplicationId × Option UInt16)
  deriving DecidableEq, Repr

/-- Of several entries of one application, the first counts. -/
def RouteTable.build (apps : List (ApplicationId × Option UInt16)) : RouteTable where
  claims := apps.foldl (fun claims c => if claims.any (·.1 = c.1) then claims else claims ++ [c]) []

def Route.of (app : ApplicationId) : Option UInt16 → Route
  | some port => if 1024 ≤ port then .serving app port else .idle app
  | none => .idle app

def RouteTable.get (t : RouteTable) (host : String) : Option Route :=
  match t.claims.filter fun c => hostname c.1 = host with
  | [] => none
  | [(app, port)] => some (.of app port)
  | claims => some (.conflict (claims.map (·.1)))

/-- Is it a port that Harpoon leases for applications or their tests? -/
def leased (port : UInt16) : Bool := 38000 ≤ port && port ≤ 38999 || 39000 ≤ port && port ≤ 39099

/-- The table of the applications `apps`, from the records. -/
def tableOf (l : Ledger) (deployments : List Deployment) (apps : List ApplicationId) : RouteTable :=
  .build (apps.map fun a => (a, (servingPort l deployments a).filter leased))

end Harpoon.Deploy
