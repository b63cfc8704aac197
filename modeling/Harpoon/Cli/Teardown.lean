import Harpoon.Deploy.Serving
import Harpoon.Docker.Runs
import Harpoon.Journal.Snapshot

/-!
# Teardown

Dismantling one deployment that succeeded (`teardown` in `commands.rs`): the containers of its release one at a time, then
its images, then its port leases. A phase begins only where the one before came out clean. Docker's own lists are asked next
to what the engine asks, and every removal is carried out as in a reconciliation.
-/

namespace Harpoon.Cli

open Interact Deploy Docker

/-! ## What is torn down -/

/-- One selected deployment's resources, from the journal. -/
structure Targets where
  containers : List Entry
  images : List Entry
  leases : List Entry
  deriving DecidableEq, Repr

/-- A rollback serves the release from a container and a port lease of its own deployment. -/
def targetsOf (l : Ledger) (deployments : List Deployment) (dep : DeploymentId) : Targets where
  containers := containersOfRelease l deployments dep
  images := l.entries.filter fun e => e.deployment = dep && e.key.kind = .image
  leases := (l.entries.filter fun e => e.deployment = dep && e.key.kind = .portLease) ++
    (deployments.filter fun f => f.rollbackTo = some (.fromDeployment dep) && f.status = .succeeded).flatMap fun f =>
      l.entries.filter fun e => e.deployment = f.id && e.key.kind = .portLease

/-- What is not released yet. -/
def unreleased (entries : List Entry) : List Entry := entries.filter (!·.isReleased)

def Targets.unreleased (t : Targets) : List Entry := Cli.unreleased (t.containers ++ t.images ++ t.leases)

/-- How a recorded Docker object is found in a full, successful listing. -/
inductive Located where
  | ours (o : Observed)
  | mismatch (reason : String)
  | absent
  | noReceipt
  deriving DecidableEq, Repr

def locate (e : Entry) (observed : List Observed) : Located :=
  match e.id with
  | none => .noReceipt
  | some id =>
    match observed.find? fun o => o.kind = e.key.kind && o.id = id with
    | some o =>
      if o.labelledFor e.app e.deployment && (e.key.kind = .image || o.name = e.key.name) then .ours o
      else .mismatch s!"the {e.key.kind.asStr} with id {id} is named {Envvars.debugStr o.name} and carries labels that are not exactly this deployment's; it is not touched"
    | none =>
      if e.key.kind = .container && observed.any fun o => o.kind = e.key.kind && o.name = e.key.name then
        .mismatch s!"a {e.key.kind.asStr} named {Envvars.debugStr e.key.name} exists but its id is not the recorded {id}; it is not touched"
      else .absent

/-- What is done about an object that was located. -/
def Located.action (entry : EntryRef) : Located → Option Action
  | .ours o => some (.remove entry o false)
  | .mismatch reason => some (.refuse entry reason)
  | .absent => some (.markAbsent entry)
  -- The source's `unreachable!`: what has no receipt was refused before.
  | .noReceipt => none

/-! ## What is said -/

def describe : Action → String
  | .remove entry o adopt =>
    let first := if adopt then ", recording its id first" else ""
    s!"remove {o.kind.asStr} {o.name} (id {o.id}) of {entry.1.asStr}{first}"
  | .adopt entry o => s!"record the id {o.id} of {o.kind.asStr} {o.name} for {entry.1.asStr} and keep it"
  | .releaseLease entry => s!"release port lease {entry.2.name} of {entry.1.asStr} (ledger only)"
  | .markAbsent entry =>
    s!"{entry.2.kind.asStr} {entry.2.name} of {entry.1.asStr} is not in the runtime: record it as absent"
  | .refuse entry reason => s!"REFUSE {entry.2.kind.asStr} {entry.2.name} of {entry.1.asStr}: {reason}"
  | .reportOnly o reason => s!"report only: {o.kind.asStr} {o.name} (id {o.id}): {reason}"

def stateNote (e : Entry) : String :=
  match e.state with
  | .created => "recorded"
  | .cleanupFailed _ => "an earlier removal failed"
  | .cleanupConflict _ _ => "an earlier removal was refused as a conflict"
  | .intended => "no receipt"
  | .refused _ => "refused earlier"
  | .released _ => "already released"

/-- Why a teardown gives up. -/
inductive Stop where
  /-- The journal's own rules speak against it; Docker was not asked. -/
  | refused (message : String)
  | runtime (message : String)
  /-- A record was not written. -/
  | journal (e : EngineError)
  deriving DecidableEq, Repr

/-- The ledger in memory, and what was said so far. -/
structure Session where
  ledger : Ledger
  out : List String
  deriving DecidableEq, Repr

abbrev Teardown (α : Type) := Process StepSig Session Stop α

def say (line : String) : Teardown Unit := modify fun s => { s with out := s.out ++ [line] }

def sayAll (lines : List String) : Teardown Unit := modify fun s => { s with out := s.out ++ lines }

/-! ## Asking -/

/-- Ten seconds, in nanoseconds. -/
def t10 : Nat := 10000000000

def docker (op : ApiOp) : Teardown (Except ApiError op.Value) := Process.perform (S := StepSig) (.host (.api op t10))

/-- Carry out actions on the ledger in memory. -/
def carry (actions : List Action) : Teardown Unit := do
  let done ← Process.attempt (Process.zoom Session.ledger (fun l s => { s with ledger := l })
    (Process.via onEngine (executeActions actions)))
  let _ ← Process.ofExcept .journal done

def listRuntime (socket : String) : Teardown (List Observed) := do
  let listed ← Process.perform (S := StepSig) (.engine .listResources)
  Process.ofExcept (fun e : StepError =>
    .runtime s!"cannot list the runtime ({socket}): {e.message}\nNothing was assumed absent and nothing was changed.") listed

/-- The host ports of the containers in a list; of one that does not run, those it is configured with too. -/
def mappedOf : List ContainerSummary → Teardown (Except ApiError (List UInt16))
  | [] => return .ok []
  | c :: cs => do
    if c.state = "running" then
      let rest ← mappedOf cs
      return rest.map (c.hostPorts ++ ·)
    else
      match ← docker (.configuredHostPorts c.id) with
      | .error e => return .error e
      | .ok own =>
        let rest ← mappedOf cs
        return rest.map (c.hostPorts ++ own ++ ·)

/-- Every host port that Docker publishes or has configured. -/
def publishedPorts : Teardown (Except ApiError (List UInt16)) := do
  match ← docker .listContainers with
  | .error e => return .error e
  | .ok list => mappedOf list

/-! ## The phases -/

/-- The first container that does not come out clean stops the rest: those are not reached. -/
def removeContainers : List Action → Teardown (List String)
  | [] => return []
  | a :: rest => do
    carry [a]
    let s ← get
    if a.target?.all fun entry => (s.ledger.find entry.1 entry.2).any Entry.isReleased then removeContainers rest
    else return rest.filterMap fun b => b.target?.map (·.2.name)

/-- Are all these entries released in the ledger? -/
def allReleased (l : Ledger) (entries : List Entry) : Bool :=
  entries.all fun e => (l.find e.deployment e.key).any Entry.isReleased

/-- The containers that use an image, or may. -/
def users (image : String) (containers : List ContainerSummary) : List String :=
  (containers.filter fun c => c.imageId.isEmpty || c.imageId = image).map fun c =>
    if c.imageId.isEmpty then s!"{c.name} (image unknown)" else c.name

/-- An image that something still uses is kept. -/
def imageAction (containers : List ContainerSummary) (observed : List Observed) (e : Entry) : Option Action ⊕ String :=
  match locate e observed with
  | .ours o =>
    let used := users o.id containers
    if used.isEmpty then .inl (some (.remove e.ref o false))
    else
      let names := ", ".intercalate used
      .inr s!"kept: image {e.key.name} is still referenced by {names} — not removed"
  | found => .inl (found.action e.ref)

def kept : Option Action ⊕ String → Option String
  | .inl _ => none
  | .inr line => some line

def planned : Option Action ⊕ String → Option Action
  | .inl a => a
  | .inr _ => none

def removeImages (socket : String) (images : List Entry) : Teardown Unit := do
  let fresh ← listRuntime socket
  let answer ← docker .listContainers
  let containers ← Process.ofExcept (fun e => .runtime s!"cannot re-list containers: {e.display}") answer
  let judged := images.map (imageAction containers fresh)
  sayAll (judged.filterMap kept)
  let actions := judged.filterMap planned
  sayAll (actions.map describe)
  carry actions

/-- A lease is released once its port is mapped by no container. -/
def leaseAction (mapped : List UInt16) (e : Entry) : Action ⊕ String :=
  match (Wire.parseUnsigned 10 65535 e.key.name).map UInt16.ofNat with
  | some port =>
    if mapped.contains port then .inr s!"port {port} is still mapped by a container; lease kept"
    else .inl (.releaseLease e.ref)
  | none => .inr s!"lease {Envvars.debugStr e.key.name} is not a port number; kept"

/-- The leases that were kept, and why. -/
def releaseLeases (leases : List Entry) : Teardown (List String) := do
  let answer ← publishedPorts
  let mapped ← Process.ofExcept (fun e => .runtime s!"cannot read Docker's port mappings: {e.display}") answer
  let judged := leases.map (leaseAction mapped)
  let actions := judged.filterMap Sum.getLeft?
  sayAll (actions.map describe)
  carry actions
  return judged.filterMap Sum.getRight?

/-- What an entry that was not cleaned is reported with. -/
def problemOf (e : Entry) : Option String :=
  match e.state with
  | .cleanupFailed m => some s!"{e.key.kind.asStr} {e.key.name}: removal failed and is recorded: {m}"
  | .cleanupConflict _ m => some s!"{e.key.kind.asStr} {e.key.name}: removal refused as a conflict and recorded: {m}"
  | .refused m => some s!"{e.key.kind.asStr} {e.key.name}: refused, not touched: {m}"
  | _ => none

/-- Equal neighbours become one. -/
def dedup : List String → List String
  | a :: b :: rest => if a = b then dedup (b :: rest) else a :: dedup (b :: rest)
  | short => short

/-! ## Teardown -/

inductive Exit where
  | ok
  | failed
  deriving DecidableEq, Repr

/-- The rules of the journal, before Docker is asked. `none`: there is something to do. -/
def Targets.refusal (t : Targets) (dep : DeploymentId) : Option String :=
  ((t.unreleased.find? (·.isRefused)).map fun e =>
    let why := match e.state with
      | .refused m => m
      | _ => ""
    s!"{e.key.kind.asStr} {e.key.name} of {dep.asStr} was refused earlier ({why}); its ownership was not proven, so teardown will not touch it. Inspect it with `status`.").or
  (((t.containers ++ t.images).find? fun e => !e.isReleased && e.id.isNone).map fun e =>
    s!"{e.key.kind.asStr} {e.key.name} of {dep.asStr} has no receipt, so what it was is unknown; use `reconcile`, not `teardown`")

def dryRun (t : Targets) : Teardown Exit := do
  sayAll ((unreleased t.images).map fun e =>
    let id := e.id.getD "-"
    s!"would: remove image {e.key.name} (id {id}) only once its containers are gone and no other container uses it ({stateNote e})")
  sayAll ((unreleased t.leases).map fun e =>
    s!"would: release port lease {e.key.name} only once the containers are verified absent and Docker no longer maps that port")
  say "dry run: nothing was changed. Add --apply and --authorize-live-docker-changes=… to carry this out; each removal re-verifies id, name and all three ownership labels at that moment, stops before removing, and never uses force, prune or a name pattern."
  return .ok

/-- The outcome, from the journal's own state. -/
def conclude (deployments : List Deployment) (dep : DeploymentId) (problems : List String) : Teardown Exit := do
  let s ← get
  let after := targetsOf s.ledger deployments dep
  let problems := problems ++ (after.containers ++ after.images ++ after.leases).filterMap problemOf
  if problems.isEmpty then
    let kept := if after.images.any (!·.isReleased) then " (an image was kept because something still uses it)" else ""
    say s!"teardown: complete{kept}"
    return .ok
  else
    say "teardown: incomplete — nothing was forced; the state is recorded and a repeat run retries only what is left:"
    sayAll ((dedup problems).map fun p => "  " ++ p)
    return .failed

/-- The three phases, and what became of them. -/
def applyTeardown (socket : String) (deployments : List Deployment) (dep : DeploymentId) (t : Targets)
    (actions : List Action) : Teardown Exit := do
  let notReached ← removeContainers actions
  sayAll (notReached.map fun n =>
    s!"not attempted: container {n} — an earlier container did not come out clean, so nothing further was touched")
  let s ← get
  if allReleased s.ledger t.containers then
    if (unreleased t.images).isEmpty then pure () else removeImages socket (unreleased t.images)
    let problems ← if (unreleased t.leases).isEmpty then pure [] else releaseLeases (unreleased t.leases)
    conclude deployments dep problems
  else
    conclude deployments dep
      ["a container could not be removed or verified; the image and the port leases were left alone"]

/-- Tear down a deployment that succeeded, or say what would be done. -/
def teardown (apply : Bool) (socket : String) (deployments : List Deployment) (dep : DeploymentId) : Teardown Exit := do
  match deployments.find? (·.id = dep) with
  | none => throw (.refused s!"deployment {dep.asStr} is not in the journal")
  | some d =>
    if d.status ≠ .succeeded then
      throw (.refused s!"deployment {dep.asStr} is {Journal.statusStr d.status}, not succeeded. `teardown` dismantles a successful deployment only; use `recover` and `reconcile` for anything else.")
    else
      let s ← get
      let t := targetsOf s.ledger deployments dep
      if t.unreleased.isEmpty then
        say s!"teardown: nothing to do — every recorded resource of {dep.asStr} is already released"
        return .ok
      else
        match t.refusal dep with
        | some why => throw (.refused why)
        | none =>
          let observed ← listRuntime socket
          let mode := if apply then "APPLYING" else "dry run: nothing will be changed"
          say s!"teardown of {dep.asStr} (application {d.applicationId.asStr}) — {mode}"
          let actions := (unreleased t.containers).filterMap fun e => (locate e observed).action e.ref
          sayAll (actions.map fun a => (if apply then "" else "would: ") ++ describe a)
          if apply then applyTeardown socket deployments dep t actions else dryRun t

end Harpoon.Cli
